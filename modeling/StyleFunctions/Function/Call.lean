import StyleFunctions.Function.Builtin
import StyleFunctions.Function.DataUrl
import StyleFunctions.Text.Template

/-!
# Calling functions

A call names a function, gives it evaluated arguments, and knows its place in the style sheet.

* `Settings.dispatch` is what is done with the arguments under each name.  Only the data URL looks
  at mode and loader, and only functions that put values into text look at the CSS options.
* `Settings.outcome` fails when the table has no such name, when it has other counts of arguments
  for it, or when the function refuses the arguments.
* `Settings.call` adds the place of the call to every failure.
-/

namespace StyleFunctions

/-- What calls depend on besides their arguments. -/
structure Settings where
  mode : EvalMode := .compile
  css : CssOptions := {}
  loader : Loader := Loader.standard
  deriving DecidableEq, Repr

namespace Settings

variable {α : Type} [Scalar α]

/-- The result of the function with a canonical name for its arguments.  `caller` is the name that
the call site gives to the function.  The blend modes and the functions of one number are looked
up once more in tables of their own, by the name under which the call got there. -/
def dispatch (settings : Settings) (name caller : String) (arguments : List (Value α)) :
    Except Cause (Option (Value α)) :=
  let valueAt (i : Nat) : Except Cause (Value α) := Argument.get arguments i
  let colorAt (i : Nat) : Except Cause (Color α) := do Argument.color name (← valueAt i)
  let dimensionAt (i : Nat) : Except Cause (Dimension α) := do
    Argument.dimension name (← valueAt i)
  let construct (f : Construction) : Except Cause (Option (Value α)) := do
    return some (.color (← f.apply arguments))
  let project (f : Projection) : Except Cause (Option (Value α)) := do
    return some (f.apply (← colorAt 0))
  let adjust (f : Adjustment) : Except Cause (Option (Value α)) := do
    let c ← colorAt 0
    let amount ← dimensionAt 1
    return some (.color (f.apply c amount))
  let test (f : TypeTest) : Except Cause (Option (Value α)) := do
    return some (.boolean (f.holds (← valueAt 0)))
  match name with
  | "rgb" => construct .rgb
  | "rgba" => construct .rgba
  | "hsl" => construct .hsl
  | "hsla" => construct .hsla
  | "hsv" => construct .hsv
  | "hsva" => construct .hsva
  | "hue" => project .hue
  | "saturation" => project .saturation
  | "lightness" => project .lightness
  | "red" => project .red
  | "green" => project .green
  | "blue" => project .blue
  | "alpha" => project .alpha
  | "luma" => project .luma
  | "argb" => project .argb
  | "saturate" => adjust .saturate
  | "desaturate" => adjust .desaturate
  | "lighten" => adjust .lighten
  | "darken" => do
    let c ← Adjustment.darken.subject caller (← valueAt 0)
    return some (.color (c.darken (← dimensionAt 1)))
  | "fadein" => adjust .fadeIn
  | "fadeout" => adjust .fadeOut
  | "fade" => adjust .fade
  | "spin" => adjust .spin
  | "mix" => do
    let weight ←
      match arguments[2]? with
      | some w => some <$> Argument.dimension name w
      | none => pure none
    let first ← colorAt 0
    let second ← colorAt 1
    return some (.color (Color.mix first second weight))
  | "tint" => adjust .tint
  | "shade" => adjust .shade
  | "greyscale" => do return some (.color (← colorAt 0).greyscale)
  | "contrast" => do Contrast.pick (← valueAt 0) arguments[1]? arguments[2]? arguments[3]?
  | "multiply" | "screen" | "overlay" | "softlight" | "hardlight" | "difference" | "exclusion"
  | "average" | "negation" =>
    match BlendMode.ofName? name with
    | some mode => do
      let first ← colorAt 0
      let second ← colorAt 1
      return some (.color (mode.blend first second))
    | none => .error (.undefinedFunction name)
  | "ceil" | "floor" | "sqrt" | "abs" | "tan" | "sin" | "cos" | "atan" | "asin" | "acos" =>
    match MathFunction.ofName? name with
    | some f => do return some (← f.apply (← valueAt 0) 0)
    | none => .error (.undefinedFunction name)
  | "round" => do return some (← MathFunction.applyRound (← valueAt 0) arguments[1]?)
  | "pi" => return some (.number circleRatio)
  | "pow" => do
    let base ← valueAt 0
    let exponent ← valueAt 1
    return some (← Arithmetic.pow base exponent)
  | "mod" => do
    let dividend ← dimensionAt 0
    let divisor ← dimensionAt 1
    return some (← Arithmetic.modulo dividend divisor)
  | "unit" => do
    let d ← dimensionAt 0
    return some (.dimension (Conversion.withUnit settings.css d arguments[1]?))
  | "convert" => do
    let d ← dimensionAt 0
    return some (.dimension (Conversion.toUnit d (← valueAt 1)))
  | "percentage" => do return some (Conversion.percentage (← dimensionAt 0))
  | "color" => do return some (.color (← Conversion.color (← valueAt 0)))
  | "iscolor" => test .isColor
  | "isnumber" => test .isNumber
  | "isstring" => test .isString
  | "iskeyword" => test .isKeyword
  | "isurl" => test .isUrl
  | "ispixel" => test .isPixel
  | "ispercentage" => test .isPercentage
  | "isem" => test .isEm
  | "_percent" => do return some (Template.format settings.css (← valueAt 0) (arguments.drop 1))
  | "e" => do return some (.anonymous (← valueAt 0).rawText)
  | "escape" => do return some (.anonymous (UrlEncoding.encodeForm (← valueAt 0).rawText))
  | "datauri" => do
    return some (DataUrl.embed settings.mode settings.loader (← valueAt 0) arguments[1]?)
  | _ => .error (.undefinedFunction name)

/-- The result of a call by name, or the cause of its failure. -/
def outcome (settings : Settings) (name : String) (arguments : List (Value α))
    (caller : String) : Except Cause (Option (Value α)) :=
  match Builtin.arity? (Builtin.canonicalName name) with
  | none => .error (.undefinedFunction name)
  | some arity =>
    if arity.accepts arguments.length then
      settings.dispatch (Builtin.canonicalName name) caller arguments
    else .error (.arityMismatch name arity.least arity.most arguments.length)

/-- The result of a call by name; nothing for a call without a value.  Every failure is a fresh
error, in the words of its cause, without a span and without frames until the place of the call
is attached to it. -/
def call (settings : Settings) (name : String) (arguments : List (Value α)) (site : CallSite) :
    Except Error (Option (Value α)) :=
  match settings.outcome name arguments site.function with
  | .ok result => .ok result
  | .error cause => .error (site.attach { cause })

end Settings

end StyleFunctions
