import StyleFunctions.Function.Argument
import StyleFunctions.Color.Hsl
import StyleFunctions.Color.Hsv

/-!
# Colours from components

The functions that make a colour of three components and, where their name ends in `a`, an
opacity.  Channels may be percentages of 256, other components percentages of one; none is drawn
into a range.
-/

namespace StyleFunctions

/-- The functions that make colours. -/
inductive Construction
  | hsl | hsla | hsv | hsva | rgb | rgba
  deriving DecidableEq, Repr

namespace Construction

/-- The name of a function. -/
def name : Construction → String
  | hsl => "hsl"
  | hsla => "hsla"
  | hsv => "hsv"
  | hsva => "hsva"
  | rgb => "rgb"
  | rgba => "rgba"

/-- Whether a function takes an opacity. -/
def hasOpacity : Construction → Bool
  | hsla | hsva | rgba => true
  | hsl | hsv | rgb => false

variable {α : Type} [Scalar α]

/-- The size that percentages of a channel refer to. -/
def channelSize : α := 256

/-- The number that a component stands for. -/
def component : Construction → Value α → Except Cause α
  | rgb | rgba => Argument.scaled channelSize
  | hsl | hsla | hsv | hsva => Argument.number

/-- The colour with the given components. -/
def build : Construction → (x y z alpha : α) → Color α
  | rgb | rgba => fun red green blue alpha => ⟨red, green, blue, alpha⟩
  | hsl | hsla => fun hue saturation lightness alpha =>
    Hsl.toColor ⟨hue, saturation, lightness, alpha⟩
  | hsv | hsva => fun hue saturation value alpha => Hsv.toColor ⟨hue, saturation, value, alpha⟩

/-- The colour that a function makes of its arguments. -/
def apply (f : Construction) (arguments : List (Value α)) : Except Cause (Color α) := do
  let x ← f.component (← Argument.get arguments 0)
  let y ← f.component (← Argument.get arguments 1)
  let z ← f.component (← Argument.get arguments 2)
  let alpha ← if f.hasOpacity then Argument.number (← Argument.get arguments 3) else pure 1
  return f.build x y z alpha

end Construction

end StyleFunctions
