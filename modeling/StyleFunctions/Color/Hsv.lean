import StyleFunctions.Color.Basic

/-!
# Hue, saturation and value

Colours given by a hue, a saturation and the level of their largest channel.  The hue circle has
six sectors; in each, one channel is at the top, one at the bottom, and one rises or falls.
`sectorLevels` tells which, and `Hsv.toColor` is the colour.
-/

namespace StyleFunctions

/-- A colour by its hue in degrees, its saturation and value from 0 to 1, and its opacity. -/
structure Hsv (α : Type) where
  hue : α
  saturation : α
  value : α
  alpha : α
  deriving DecidableEq, Repr

namespace Hsv

variable {α : Type} [Scalar α]

/-- Red, green and blue in a sector of the hue circle, from the levels `top` and `bottom` and
those of a `falling` and a `rising` channel. -/
def sectorLevels (sector : Int) (top bottom falling rising : α) : α × α × α :=
  match sector with
  | 0 => (top, rising, bottom)
  | 1 => (falling, top, bottom)
  | 2 => (bottom, top, rising)
  | 3 => (bottom, falling, top)
  | 4 => (rising, bottom, top)
  | _ => (top, bottom, falling)

/-- The whole degrees of a hue, within one turn.  The division and the multiplication by 360
move the last bit of many hues and belong to the formula. -/
def wholeDegrees (hue : α) : α := Scalar.remainder (Scalar.trunc hue) 360 / 360 * 360

/-- The colour with the given hue, saturation, value and opacity.  A negative hue lands in a
negative sector, which is counted back from the last one. -/
def toColor (c : Hsv α) : Color α :=
  let degrees := wholeDegrees c.hue
  let sector := Scalar.remainder (Scalar.trunc (degrees / 60)) 6
  let part := degrees / 60 - sector
  let top := c.value
  let bottom := c.value * (1 - c.saturation)
  let falling := c.value * (1 - part * c.saturation)
  let rising := c.value * (1 - (1 - part) * c.saturation)
  let index := Scalar.toInt64 sector % 6
  let (red, green, blue) := sectorLevels index top bottom falling rising
  ⟨red * 255, green * 255, blue * 255, c.alpha⟩

end Hsv

end StyleFunctions
