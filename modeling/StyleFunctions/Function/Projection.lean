import StyleFunctions.Color.Hsl
import StyleFunctions.Value

/-!
# Components of a colour

The functions that read a single value off a colour.  Components that are computed are rounded;
channels and opacity come as they are.
-/

namespace StyleFunctions

/-- The functions of one colour that do not give a colour. -/
inductive Projection
  | alpha | argb | blue | green | hue | lightness | luma | red | saturation
  deriving DecidableEq, Repr

namespace Projection

/-- The name of a function. -/
def name : Projection → String
  | alpha => "alpha"
  | argb => "argb"
  | blue => "blue"
  | green => "green"
  | hue => "hue"
  | lightness => "lightness"
  | luma => "luma"
  | red => "red"
  | saturation => "saturation"

variable {α : Type} [Scalar α]

/-- A share of one as a whole percentage. -/
def wholePercentage (x : α) : Value α := .percentage (Scalar.round (x * 100))

/-- What a function reads off a colour. -/
def apply : Projection → Color α → Value α
  | alpha, c => .number c.alpha
  | argb, c => .anonymous c.argbText
  | blue, c => .number c.blue
  | green, c => .number c.green
  | hue, c => .number (Scalar.round c.toHsl.hue)
  | lightness, c => wholePercentage c.toHsl.lightness
  | luma, c => wholePercentage (c.luminance * c.alpha)
  | red, c => .number c.red
  | saturation, c => wholePercentage c.toHsl.saturation

end Projection

end StyleFunctions
