import StyleFunctions.Color.Hsl
import StyleFunctions.Dimension

/-!
# Mixtures of two colours

A mixture is a weighted average (`blendShares`).  The weight of the channels (`channelWeight`)
takes the opacities into account, so that of two colours the more opaque one shows more.
-/

namespace StyleFunctions

namespace Color

variable {α : Type} [Scalar α]

/-- The weight of the first colour's channels, for its share `p` and a `difference` of the
opacities. -/
def channelWeight (p difference : α) : α :=
  let w := p * 2 - 1
  ((if w * difference == -1 then w else (w + difference) / (1 + w * difference)) + 1) / 2

/-- Two colours mixed, with a share `p` of the first.  The opacities that weigh the channels are
read off the colours by hue, saturation and lightness, which are not used otherwise. -/
def blendShares (first second : Color α) (p : α) : Color α :=
  let w := channelWeight p (first.toHsl.alpha - second.toHsl.alpha)
  let v := 1 - w
  ⟨first.red * w + second.red * v, first.green * w + second.green * v,
    first.blue * w + second.blue * v, first.alpha * p + second.alpha * (1 - p)⟩

/-- The opacities that weigh the channels are those of the colours. -/
theorem blendShares_eq (first second : Color α) (p : α) :
    blendShares first second p =
      let w := channelWeight p (first.alpha - second.alpha)
      let v := 1 - w
      ⟨first.red * w + second.red * v, first.green * w + second.green * v,
        first.blue * w + second.blue * v, first.alpha * p + second.alpha * (1 - p)⟩ := by
  simp only [blendShares, toHsl_alpha]

/-- The share of the first colour in percent, when none is given. -/
def defaultWeight : α := 50

/-- Two colours mixed, with a share of the first in percent. -/
def mix (first second : Color α) (weight : Option (Dimension α)) : Color α :=
  blendShares first second ((weight.map (·.value)).getD defaultWeight / 100)

/-- A colour mixed with white. -/
def tint (c : Color α) (amount : Dimension α) : Color α := mix white c (some amount)

/-- A colour mixed with black. -/
def shade (c : Color α) (amount : Dimension α) : Color α := mix black c (some amount)

end Color

end StyleFunctions
