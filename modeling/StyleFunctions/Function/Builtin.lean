import StyleFunctions.Color.Blend
import StyleFunctions.Function.Adjustment
import StyleFunctions.Function.Construction
import StyleFunctions.Function.Conversion
import StyleFunctions.Function.Math
import StyleFunctions.Function.Projection

/-!
# The table of functions

* `Builtin.arities` is the table in which calls look up a name, `Builtin.canonicalName` the key of
  a written name: the case of ASCII letters does not matter, and the formatting function is also
  called by a percent sign.
* `Builtin` lists the functions behind the names; families of functions with one kind of arguments
  are types of their own.  `Builtin.name` and `Builtin.arity` say again what the table says, row by
  row of `Builtin.all`, and `Builtin.lookup?` finds the function that a written name stands for.
-/

namespace StyleFunctions

namespace Builtin

/-- The table of the names that can be called and the counts of arguments they take, by concern
and within a concern by name. -/
def arities : List (String × Arity) :=
  [("hsl", .exactly 3), ("hsla", .exactly 4), ("hsv", .exactly 3), ("hsva", .exactly 4),
    ("rgb", .exactly 3), ("rgba", .exactly 4),
    ("alpha", .exactly 1), ("argb", .exactly 1), ("blue", .exactly 1), ("green", .exactly 1),
    ("hue", .exactly 1), ("lightness", .exactly 1), ("luma", .exactly 1), ("red", .exactly 1),
    ("saturation", .exactly 1),
    ("contrast", .between 1 4), ("darken", .exactly 2), ("desaturate", .exactly 2),
    ("fade", .exactly 2), ("fadein", .exactly 2), ("fadeout", .exactly 2),
    ("greyscale", .exactly 1), ("lighten", .exactly 2), ("mix", .between 2 3),
    ("saturate", .exactly 2), ("shade", .exactly 2), ("spin", .exactly 2), ("tint", .exactly 2),
    ("average", .exactly 2), ("difference", .exactly 2), ("exclusion", .exactly 2),
    ("hardlight", .exactly 2), ("multiply", .exactly 2), ("negation", .exactly 2),
    ("overlay", .exactly 2), ("screen", .exactly 2), ("softlight", .exactly 2),
    ("abs", .exactly 1), ("acos", .exactly 1), ("asin", .exactly 1), ("atan", .exactly 1),
    ("ceil", .exactly 1), ("cos", .exactly 1), ("floor", .exactly 1), ("mod", .exactly 2),
    ("pi", .exactly 0), ("pow", .exactly 2), ("round", .between 1 2), ("sin", .exactly 1),
    ("sqrt", .exactly 1), ("tan", .exactly 1),
    ("color", .exactly 1), ("convert", .exactly 2), ("percentage", .exactly 1),
    ("unit", .between 1 2),
    ("iscolor", .exactly 1), ("isem", .exactly 1), ("iskeyword", .exactly 1),
    ("isnumber", .exactly 1), ("ispercentage", .exactly 1), ("ispixel", .exactly 1),
    ("isstring", .exactly 1), ("isurl", .exactly 1),
    ("_percent", .atLeast 1), ("e", .exactly 1), ("escape", .exactly 1),
    ("datauri", .between 1 2)]

/-- The counts of arguments that go with a canonical name. -/
def arity? (name : String) : Option Arity := arities.lookup name

/-- The name by which a written name is looked up. -/
def canonicalName (name : String) : String :=
  if name = "%" then "_percent" else String.ofList (name.toList.map Char.toLower)

/-- Whether a written name calls a function. -/
def isKnown (name : String) : Bool := (arity? (canonicalName name)).isSome

end Builtin

/-- A function that a style sheet can call. -/
inductive Builtin
  | construction (f : Construction)
  | projection (f : Projection)
  | adjustment (f : Adjustment)
  | contrast | greyscale | mix
  | blend (mode : BlendMode)
  | math (f : MathFunction)
  | mod | pi | pow
  | color | convert | percentage | unit
  | typeTest (f : TypeTest)
  | format | e | escape
  | dataUrl
  deriving DecidableEq, Repr

namespace Builtin

/-- The canonical name of a function. -/
def name : Builtin → String
  | construction f => f.name
  | projection f => f.name
  | adjustment f => f.name
  | contrast => "contrast"
  | greyscale => "greyscale"
  | mix => "mix"
  | blend mode => mode.name
  | math f => f.name
  | mod => "mod"
  | pi => "pi"
  | pow => "pow"
  | color => "color"
  | convert => "convert"
  | percentage => "percentage"
  | unit => "unit"
  | typeTest f => f.name
  | format => "_percent"
  | e => "e"
  | escape => "escape"
  | dataUrl => "datauri"

/-- The counts of arguments that a function takes. -/
def arity : Builtin → Arity
  | construction f => Arity.exactly (if f.hasOpacity then 4 else 3)
  | projection _ => Arity.exactly 1
  | adjustment _ => Arity.exactly 2
  | contrast => Arity.between 1 4
  | greyscale => Arity.exactly 1
  | mix => Arity.between 2 3
  | blend _ => Arity.exactly 2
  | math .round => Arity.between 1 2
  | math _ => Arity.exactly 1
  | mod => Arity.exactly 2
  | pi => Arity.exactly 0
  | pow => Arity.exactly 2
  | color => Arity.exactly 1
  | convert => Arity.exactly 2
  | percentage => Arity.exactly 1
  | unit => Arity.between 1 2
  | typeTest _ => Arity.exactly 1
  | format => Arity.atLeast 1
  | e => Arity.exactly 1
  | escape => Arity.exactly 1
  | dataUrl => Arity.between 1 2

/-- All functions, by concern and within a concern by name. -/
def all : List Builtin :=
  [construction .hsl, construction .hsla, construction .hsv, construction .hsva,
    construction .rgb, construction .rgba,
    projection .alpha, projection .argb, projection .blue, projection .green, projection .hue,
    projection .lightness, projection .luma, projection .red, projection .saturation,
    contrast, adjustment .darken, adjustment .desaturate, adjustment .fade, adjustment .fadeIn,
    adjustment .fadeOut, greyscale, adjustment .lighten, mix, adjustment .saturate,
    adjustment .shade, adjustment .spin, adjustment .tint,
    blend .average, blend .difference, blend .exclusion, blend .hardlight, blend .multiply,
    blend .negation, blend .overlay, blend .screen, blend .softlight,
    math .abs, math (.trig .acos), math (.trig .asin), math (.trig .atan), math .ceil,
    math (.trig .cos), math .floor, mod, pi, pow, math .round, math (.trig .sin), math .sqrt,
    math (.trig .tan),
    color, convert, percentage, unit,
    typeTest .isColor, typeTest .isEm, typeTest .isKeyword, typeTest .isNumber,
    typeTest .isPercentage, typeTest .isPixel, typeTest .isString, typeTest .isUrl,
    format, e, escape,
    dataUrl]

/-- The function with a canonical name. -/
def ofName? (name : String) : Option Builtin := all.find? fun f => f.name == name

/-- The function that a written name stands for. -/
def lookup? (name : String) : Option Builtin := ofName? (canonicalName name)

end Builtin

end StyleFunctions
