import StyleFunctions.Color.Hsl
import StyleFunctions.Dimension

/-!
# Adjustments of a colour

An adjustment changes one component of a colour's hue, saturation, lightness and opacity, and
turns the result back into channels (`Color.adjust`).  All components but the hue are drawn into
the unit interval; the hue goes round (`turnHue`).
-/

namespace StyleFunctions

namespace Color

variable {α : Type} [Scalar α]

/-- A colour changed in its hue, saturation, lightness or opacity. -/
def adjust (c : Color α) (edit : Hsl α → Hsl α) : Color α := (edit c.toHsl).toColor

/-! ## Saturation and lightness, by percentages -/

/-- A colour with more saturation. -/
def saturate (c : Color α) (amount : Dimension α) : Color α :=
  c.adjust fun x =>
    { x with saturation := Scalar.clampUnit (x.saturation + amount.value / 100) }

/-- A colour with less saturation. -/
def desaturate (c : Color α) (amount : Dimension α) : Color α :=
  c.adjust fun x =>
    { x with saturation := Scalar.clampUnit (x.saturation - amount.value / 100) }

/-- A colour with more lightness. -/
def lighten (c : Color α) (amount : Dimension α) : Color α :=
  c.adjust fun x => { x with lightness := Scalar.clampUnit (x.lightness + amount.value / 100) }

/-- A colour with less lightness. -/
def darken (c : Color α) (amount : Dimension α) : Color α :=
  c.adjust fun x => { x with lightness := Scalar.clampUnit (x.lightness - amount.value / 100) }

/-- The grey of the same lightness. -/
def greyscale (c : Color α) : Color α := c.desaturate (Dimension.ofNumber 100)

/-! ## Opacity, by percentages or plain numbers -/

/-- The share that an amount of opacity stands for. -/
def opacityShare (amount : Dimension α) : α :=
  if amount.isPercentage then amount.value / 100 else amount.value

/-- A colour with more opacity. -/
def fadeIn (c : Color α) (amount : Dimension α) : Color α :=
  c.adjust fun x => { x with alpha := Scalar.clampUnit (x.alpha + opacityShare amount) }

/-- A colour with less opacity. -/
def fadeOut (c : Color α) (amount : Dimension α) : Color α :=
  c.adjust fun x => { x with alpha := Scalar.clampUnit (x.alpha - opacityShare amount) }

/-- A colour with the given opacity. -/
def fade (c : Color α) (amount : Dimension α) : Color α :=
  c.adjust fun x => { x with alpha := Scalar.clampUnit (opacityShare amount) }

/-! ## Hue, by degrees -/

/-- A hue turned by an angle, between 0 and 360 degrees. -/
def turnHue (hue angle : α) : α :=
  let turned := Scalar.remainder (hue + angle) 360
  if turned < 0 then turned + 360 else turned

/-- A colour with its hue turned. -/
def spin (c : Color α) (amount : Dimension α) : Color α :=
  c.adjust fun x => { x with hue := turnHue x.hue amount.value }

end Color

end StyleFunctions
