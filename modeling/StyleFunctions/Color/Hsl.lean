import StyleFunctions.Color.Basic

/-!
# Hue, saturation and lightness

The same colours seen as an angle, a purity and a brightness.  The two conversions do not
share a formula:

* `Color.toHsl` goes by the largest and the smallest channel, and tells the sector of the hue
  by the channel that is largest;
* `Hsl.toColor` reads one piecewise linear function of the hue, `channelLevel`, at three points
  a third of a turn apart.
-/

namespace StyleFunctions

/-- A colour by its hue in degrees, its saturation and lightness from 0 to 1, and its opacity. -/
structure Hsl (α : Type) where
  hue : α
  saturation : α
  lightness : α
  alpha : α
  deriving DecidableEq, Repr

namespace Color

variable {α : Type} [Scalar α]

/-! ## From channels to hue -/

/-- The largest of three scalars. -/
def largest (r g b : α) : α := Scalar.max (Scalar.max r g) b

/-- The smallest of three scalars. -/
def smallest (r g b : α) : α := Scalar.min (Scalar.min r g) b

/-- The saturation of a colour that is not grey: the spread of the channels, relative to the
largest spread at its lightness. -/
def hslSaturation (max min lightness : α) : α :=
  if 0.5 < lightness then (max - min) / (2 - max - min) else (max - min) / (max + min)

/-- The hue of a colour that is not grey, in sixths of a turn: the offset of its largest channel
plus the relative difference of the two others.  Of channels that tie for the largest the
first counts. -/
def hueSixths (r g b max spread : α) : α :=
  if max == r then (g - b) / spread + (if g < b then 6 else 0)
  else if max == g then (b - r) / spread + 2
  else (r - g) / spread + 4

/-- Hue, saturation and lightness of a colour.  A grey has neither hue nor saturation. -/
def toHsl (c : Color α) : Hsl α :=
  let r := c.red / 255
  let g := c.green / 255
  let b := c.blue / 255
  let max := largest r g b
  let min := smallest r g b
  let lightness := (max + min) / 2
  if max == min then ⟨0, 0, lightness, c.alpha⟩
  else
    ⟨hueSixths r g b max (max - min) / 6 * 360, hslSaturation max min lightness, lightness,
      c.alpha⟩

/-- The opacity does not depend on the channels. -/
@[simp] theorem toHsl_alpha (c : Color α) : c.toHsl.alpha = c.alpha := by
  simp only [toHsl]
  split <;> rfl

end Color

namespace Hsl

variable {α : Type} [Scalar α]

/-! ## From hue to channels -/

/-- A point of the hue circle that is at most one turn off, brought back between 0 and 1. -/
def wrapTurn (t : α) : α := if t < 0 then t + 1 else if 1 < t then t - 1 else t

/-- The level of a channel at a point of the hue circle, between the levels `low` and `high`: it
rises over a sixth of a turn, stays for a third, falls over a sixth and stays for the rest. -/
def channelLevel (low high t : α) : α :=
  let t := wrapTurn t
  if t * 6 < 1 then low + (high - low) * t * 6
  else if t * 2 < 1 then high
  else if t * 3 < 2 then low + (high - low) * (2 / 3 - t) * 6
  else low

/-- The highest level that a channel reaches. -/
def highLevel (saturation lightness : α) : α :=
  if lightness ≤ 0.5 then lightness * (saturation + 1)
  else lightness + saturation - lightness * saturation

/-- The colour with the given hue, saturation, lightness and opacity. -/
def toColor (c : Hsl α) : Color α :=
  let turn := Scalar.remainder c.hue 360 / 360
  let high := highLevel c.saturation c.lightness
  let low := c.lightness * 2 - high
  ⟨channelLevel low high (turn + 1 / 3) * 255, channelLevel low high turn * 255,
    channelLevel low high (turn - 1 / 3) * 255, c.alpha⟩

end Hsl

end StyleFunctions
