import StyleFunctions.Number.Scalar

/-!
# Colours

A colour has three channels, meant to lie between 0 and 255, and an opacity between 0 and 1.
Nothing keeps them in those ranges: formulas take and give whatever scalars arise.
-/

namespace StyleFunctions

/-- A colour by its red, green and blue channels and its opacity. -/
structure Color (α : Type) where
  red : α
  green : α
  blue : α
  alpha : α
  deriving DecidableEq, Repr

namespace Color

variable {α : Type} [Scalar α]

/-- The colour with all channels full. -/
def white : Color α := ⟨255, 255, 255, 1⟩

/-- The colour with all channels empty. -/
def black : Color α := ⟨0, 0, 0, 1⟩

/-- The brightness of a colour on a scale from 0 to 1: a weighted sum of its channels. -/
def luminance (c : Color α) : α :=
  0.2126 * (c.red / 255) + 0.7152 * (c.green / 255) + 0.0722 * (c.blue / 255)

end Color

end StyleFunctions
