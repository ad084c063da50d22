import StyleFunctions.Function.Argument

/-!
# Functions of units and types

Units replaced and converted, colours read from strings (`Conversion`), and tests of what a
value is (`TypeTest`).
-/

namespace StyleFunctions

namespace Conversion

variable {α : Type} [Scalar α]

/-- A dimension's number in another unit, without conversion; in none when it is not given. -/
def withUnit (options : CssOptions) (d : Dimension α) (unit : Option (Value α)) : Dimension α :=
  ⟨d.value, match unit with
    | some u => u.css options
    | none => ""⟩

/-- A dimension converted to the unit that a value names. -/
def toUnit (d : Dimension α) (target : Value α) : Dimension α := d.convert target.rawText

/-- A dimension's number as a percentage. -/
def percentage (d : Dimension α) : Value α := .percentage (d.value * 100)

/-- The colour that a string holds as hexadecimal digits behind one character. -/
def color (value : Value α) : Except Cause (Color α) :=
  match value with
  | .quoted q =>
    match Color.ofHexDigits? (q.text.toList.drop 1) with
    | some c => .ok c
    | none => .error (.invalidArgument "color" ("invalid hex color `" ++ q.text ++ "`"))
  | _ => .error (.typeMismatch "Argument must be a string")

end Conversion

/-- The tests of a value's type or unit. -/
inductive TypeTest
  | isColor | isEm | isKeyword | isNumber | isPercentage | isPixel | isString | isUrl
  deriving DecidableEq, Repr

namespace TypeTest

/-- The name of a test. -/
def name : TypeTest → String
  | isColor => "iscolor"
  | isEm => "isem"
  | isKeyword => "iskeyword"
  | isNumber => "isnumber"
  | isPercentage => "ispercentage"
  | isPixel => "ispixel"
  | isString => "isstring"
  | isUrl => "isurl"

/-- Whether a value passes a test. -/
def holds {α : Type} : TypeTest → Value α → Bool
  | isColor, .color _ => true
  | isKeyword, .keyword _ => true
  | isNumber, .dimension _ => true
  | isString, .quoted _ => true
  | isUrl, .url _ => true
  | isEm, value => value.hasUnit "em"
  | isPercentage, value => value.hasUnit "%"
  | isPixel, value => value.hasUnit "px"
  | _, _ => false

end TypeTest

end StyleFunctions
