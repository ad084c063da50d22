import Mathlib.Tactic
import StyleFunctions.Function.Construction
import StyleFunctions.Proofs.Color.Component
import StyleFunctions.Proofs.Color.HueTurns

/-!
# The gamut

A colour is in gamut when its channels lie between 0 and 255 and its opacity between 0 and 1.
No formula draws channels into their range; they stay there because the components that the
formulas start from are kept in bounds.

* `Color.InGamut.toHsl_inBounds` and `Hsl.InBounds.inGamut_toColor` — colours in gamut have
  components in bounds, and components in bounds belong to colours in gamut.
* `Color.InGamut.adjust` — so an edit that keeps components in bounds keeps the colour in gamut.
* `Hsv.toColor_of_place` — the colour of a hue, saturation and value stands on the hue circle.
* `Color.InGamut.mix` — two colours are mixed by shares between 0 and 1.
-/

namespace StyleFunctions

/-! ## The unit interval -/

/-- A number between 0 and 1. -/
def InUnit (x : Rat) : Prop := 0 ≤ x ∧ x ≤ 1

theorem inUnit_zero : InUnit 0 := ⟨le_rfl, zero_le_one⟩

theorem inUnit_one : InUnit 1 := ⟨zero_le_one, le_rfl⟩

theorem inUnit_clampUnit (x : Rat) : InUnit (Scalar.clampUnit x) := by
  rw [Scalar.clampUnit_exact]
  exact ⟨le_inf le_sup_right zero_le_one, inf_le_right⟩

/-- A weighted average of two numbers lies between their bounds. -/
theorem weighted_mem {w : Rat} (hw : InUnit w) {lo hi a b : Rat} (ha : lo ≤ a ∧ a ≤ hi)
    (hb : lo ≤ b ∧ b ≤ hi) : lo ≤ a * w + b * (1 - w) ∧ a * w + b * (1 - w) ≤ hi := by
  have hv : 0 ≤ 1 - w := sub_nonneg.2 hw.2
  constructor
  · calc lo = lo * w + lo * (1 - w) := by ring
      _ ≤ a * w + b * (1 - w) :=
        add_le_add (mul_le_mul_of_nonneg_right ha.1 hw.1) (mul_le_mul_of_nonneg_right hb.1 hv)
  · calc a * w + b * (1 - w) ≤ hi * w + hi * (1 - w) :=
        add_le_add (mul_le_mul_of_nonneg_right ha.2 hw.1) (mul_le_mul_of_nonneg_right hb.2 hv)
      _ = hi := by ring

/-! ## Bounds of colours and of their components -/

/-- All channels lie in their range, and the opacity in its. -/
structure Color.InGamut (c : Color Rat) : Prop where
  inRange : c.InRange
  alpha : InUnit c.alpha

/-- A hue of no negative turns, and the other components between 0 and 1. -/
structure Hsl.InBounds (x : Hsl Rat) : Prop where
  hue : 0 ≤ x.hue
  saturation : InUnit x.saturation
  lightness : InUnit x.lightness
  alpha : InUnit x.alpha

namespace Color

/-- The components of a colour that is not grey. -/
theorem exists_place_toHsl {c : Color Rat} (h : c.highest ≠ c.lowest) :
    ∃ p : HuePlace, c.toHsl =
      ⟨p.degrees,
        hslSaturation (c.highest / 255) (c.lowest / 255) ((c.highest / 255 + c.lowest / 255) / 2),
        (c.highest / 255 + c.lowest / 255) / 2, c.alpha⟩ := by
  have hlt : c.lowest < c.highest := lt_of_le_of_ne c.lowest_le_highest h.symm
  obtain ⟨p, hp⟩ := exists_place hlt
  have hlevels : c.lowest / 255 < c.highest / 255 := div_lt_div_of_pos_right hlt (by norm_num)
  refine ⟨p, ?_⟩
  calc c.toHsl = (p.color (c.lowest / 255) (c.highest / 255) c.alpha).toHsl := by rw [← hp]
    _ = _ := p.toHsl_color hlevels c.alpha

/-- The hue of a colour lies within the first turn. -/
theorem toHsl_hue_mem (c : Color Rat) : 0 ≤ c.toHsl.hue ∧ c.toHsl.hue < 360 := by
  rcases eq_or_ne c.highest c.lowest with hgrey | hne
  · rw [toHsl_of_grey hgrey]
    norm_num
  · obtain ⟨p, hp⟩ := exists_place_toHsl hne
    rw [hp]
    exact ⟨p.degrees_nonneg, p.degrees_lt⟩

/-- The spread of two levels is at most the largest one at their lightness. -/
theorem inUnit_hslSaturation {low high : Rat} (h₀ : 0 ≤ low) (h : low < high) (h₁ : high ≤ 1) :
    InUnit (hslSaturation high low ((high + low) / 2)) := by
  rw [hslSaturation_exact, InUnit]
  split
  · have hdivisor : 0 < 2 - high - low := by linarith
    exact ⟨div_nonneg (by linarith) hdivisor.le, (div_le_one hdivisor).2 (by linarith)⟩
  · have hdivisor : 0 < high + low := by linarith
    exact ⟨div_nonneg (by linarith) hdivisor.le, (div_le_one hdivisor).2 (by linarith)⟩

/-- A colour in range has its saturation and its lightness between 0 and 1. -/
theorem InRange.inUnit_toHsl {c : Color Rat} (h : c.InRange) :
    InUnit c.toHsl.saturation ∧ InUnit c.toHsl.lightness := by
  obtain ⟨hlow, hhigh⟩ := c.inRange_iff.1 h
  have hle := c.lowest_le_highest
  have hlow' : 0 ≤ c.lowest / 255 := by linarith
  have hhigh' : c.highest / 255 ≤ 1 := by linarith
  have hle' : c.lowest / 255 ≤ c.highest / 255 := by linarith
  rcases eq_or_ne c.highest c.lowest with hgrey | hne
  · rw [toHsl_of_grey hgrey]
    exact ⟨inUnit_zero, hlow'.trans hle', hhigh'⟩
  · have hlt : c.lowest / 255 < c.highest / 255 :=
      div_lt_div_of_pos_right (lt_of_le_of_ne hle hne.symm) (by norm_num)
    obtain ⟨p, hp⟩ := exists_place_toHsl hne
    rw [hp]
    exact ⟨inUnit_hslSaturation hlow' hlt hhigh', by linarith, by linarith⟩

theorem InGamut.toHsl_inBounds {c : Color Rat} (h : c.InGamut) : c.toHsl.InBounds := by
  obtain ⟨hsaturation, hlightness⟩ := h.inRange.inUnit_toHsl
  refine ⟨c.toHsl_hue_mem.1, hsaturation, hlightness, ?_⟩
  rw [toHsl_alpha]
  exact h.alpha

end Color

theorem Hsl.InBounds.inGamut_toColor {x : Hsl Rat} (h : x.InBounds) : x.toColor.InGamut := by
  refine ⟨?_, h.alpha⟩
  have hover : ¬ Hsl.Overturned x.hue := fun hover => absurd hover.1 (not_lt.2 h.hue)
  exact (Hsl.inRange_toColor_iff x.hue x.alpha h.saturation.1 h.saturation.2 h.lightness.1
    h.lightness.2).2 (Or.inl hover)

/-! ## Adjustments -/

namespace Color

/-- An edit that keeps components in bounds keeps colours in gamut. -/
theorem InGamut.adjust {c : Color Rat} (h : c.InGamut) {edit : Hsl Rat → Hsl Rat}
    (hedit : ∀ x : Hsl Rat, x.InBounds → (edit x).InBounds) : (c.adjust edit).InGamut :=
  (hedit c.toHsl h.toHsl_inBounds).inGamut_toColor

end Color

/-- The values that keep components in bounds. -/
def HslComponent.Allows : HslComponent → Rat → Prop
  | hue => fun v => 0 ≤ v
  | saturation | lightness | alpha => InUnit

theorem Hsl.InBounds.set {x : Hsl Rat} (h : x.InBounds) {k : HslComponent} {v : Rat}
    (hv : k.Allows v) : (x.set k v).InBounds := by
  cases k with
  | hue => exact ⟨hv, h.saturation, h.lightness, h.alpha⟩
  | saturation => exact ⟨h.hue, hv, h.lightness, h.alpha⟩
  | lightness => exact ⟨h.hue, h.saturation, hv, h.alpha⟩
  | alpha => exact ⟨h.hue, h.saturation, h.lightness, hv⟩

/-- Edits keep components in bounds, whatever the amount. -/
theorem Adjustment.allows_edited {f : Adjustment} {k : HslComponent} (h : f.component? = some k)
    (amount : Dimension Rat) (v : Rat) : k.Allows (f.edited amount v) := by
  cases f with
  | saturate | desaturate | lighten | darken | fadeIn | fadeOut | fade =>
    cases h
    exact inUnit_clampUnit _
  | spin =>
    cases h
    rw [edited_exact]
    exact (firstTurn_mem _).1
  | tint | shade => cases h

/-! ## Hue, saturation and value -/

namespace Hsv

/-- The sector of a place is the whole part of its sixths of a turn. -/
theorem remainder_trunc_place (p : HuePlace) :
    Scalar.remainder (Scalar.trunc ((p.sector : Rat) + p.part)) 6 = (p.sector : Rat) := by
  have hdef : Scalar.trunc ((p.sector : Rat) + p.part) =
      ((Rounding.towardZero (p.sector + p.part) : Int) : Rat) := rfl
  have hwhole : Rounding.towardZero (p.sector + p.part) = p.sector :=
    Rounding.towardZero_eq_natCast (by linarith [p.part_nonneg]) (by linarith [p.part_lt_one])
  rw [hdef, hwhole, Int.cast_natCast]
  refine Scalar.remainder_eq_self ?_
  rw [Nat.abs_cast]
  exact_mod_cast p.sector_lt

theorem toInt64_sector (p : HuePlace) : Scalar.toInt64 (p.sector : Rat) % 6 = p.sector := by
  have hlt := p.sector_lt
  rw [Scalar.toInt64_natCast (by rw [Rounding.maxInt64]; omega)]
  omega

theorem toColor_exact (hue s v alpha : Rat) :
    Hsv.toColor ⟨hue, s, v, alpha⟩ =
      let sector := Scalar.remainder (Scalar.trunc (wholeDegrees hue / 60)) 6
      let part := wholeDegrees hue / 60 - sector
      let levels := sectorLevels (Scalar.toInt64 sector % 6) v (v * (1 - s))
        (v * (1 - part * s)) (v * (1 - (1 - part) * s))
      ⟨levels.1 * 255, levels.2.1 * 255, levels.2.2 * 255, alpha⟩ := by
  rw [toColor]

/-- The colour of a hue that comes to a place stands there, between the value and what the
saturation leaves of it. -/
theorem toColor_of_place {hue : Rat} {p : HuePlace} (h : wholeDegrees hue = p.degrees)
    (s v alpha : Rat) :
    Hsv.toColor ⟨hue, s, v, alpha⟩ = p.color (v * (1 - s)) v alpha := by
  have hsixths : wholeDegrees hue / 60 = p.sector + p.part := by
    rw [h, HuePlace.degrees]
    ring
  have hfalling : v * (1 - p.part * s) = v - (v - v * (1 - s)) * p.part := by ring
  have hrising : v * (1 - (1 - p.part) * s) = v * (1 - s) + (v - v * (1 - s)) * p.part := by ring
  rw [toColor_exact]
  simp only [hsixths, remainder_trunc_place, toInt64_sector, add_sub_cancel_left, hfalling,
    hrising]
  rfl

/-- A hue of no negative turns leads to the place of its whole degrees. -/
theorem exists_place {hue : Rat} (h : 0 ≤ hue) :
    ∃ p : HuePlace, wholeDegrees hue = p.degrees := by
  have hwhole : (0 : Rat) ≤ Rounding.towardZero hue := by
    exact_mod_cast Rounding.towardZero_nonneg h
  have hlow : 0 ≤ Scalar.remainder (Rounding.towardZero hue : Rat) 360 :=
    Scalar.remainder_nonneg (m := 360) (by norm_num) hwhole
  have hhigh : Scalar.remainder (Rounding.towardZero hue : Rat) 360 < 360 := by
    exact_mod_cast Scalar.remainder_lt (m := 360) (by norm_num) (Rounding.towardZero hue : Rat)
  obtain ⟨p, hp⟩ := HuePlace.exists_degrees hlow hhigh
  have hdef : wholeDegrees hue =
      Scalar.remainder (Rounding.towardZero hue : Rat) 360 / 360 * 360 := rfl
  exact ⟨p, by rw [hdef, ← hp, div_mul_cancel₀ _ (by norm_num)]⟩

theorem inGamut_toColor {hue s v alpha : Rat} (h : 0 ≤ hue) (hs : InUnit s) (hv : InUnit v)
    (halpha : InUnit alpha) : (Hsv.toColor ⟨hue, s, v, alpha⟩).InGamut := by
  obtain ⟨p, hp⟩ := exists_place h
  have hbottom : 0 ≤ v * (1 - s) := mul_nonneg hv.1 (sub_nonneg.2 hs.2)
  have hle : v * (1 - s) ≤ v := mul_le_of_le_one_right hv.1 (by linarith [hs.1])
  rw [toColor_of_place hp]
  exact ⟨Hsl.inRange_color p hbottom hle hv.2 alpha, halpha⟩

end Hsv

/-! ## Mixtures -/

namespace Color

theorem channelWeight_exact (p difference : Rat) :
    channelWeight p difference =
      ((if (p * 2 - 1) * difference = -1 then p * 2 - 1
        else (p * 2 - 1 + difference) / (1 + (p * 2 - 1) * difference)) + 1) / 2 := by
  have hdef : channelWeight p difference =
      ((if ((p * 2 - 1) * difference == -1) = true then p * 2 - 1
        else (p * 2 - 1 + difference) / (1 + (p * 2 - 1) * difference)) + 1) / 2 := rfl
  rw [hdef]
  simp only [beq_iff_eq]

/-- Shares and opacities between 0 and 1 give weights between 0 and 1. -/
theorem inUnit_channelWeight {p difference : Rat} (hp : InUnit p) (h₀ : -1 ≤ difference)
    (h₁ : difference ≤ 1) : InUnit (channelWeight p difference) := by
  obtain ⟨hp₀, hp₁⟩ := hp
  obtain ⟨w, hw⟩ : ∃ w, w = p * 2 - 1 := ⟨_, rfl⟩
  rw [channelWeight_exact, ← hw, InUnit]
  split
  · constructor <;> linarith
  · rename_i hne
    -- With `d` for the difference, `1 + w * d` plus or minus `w + d` is `(1 ± w) * (1 ± d)`.
    have hup : 0 ≤ (1 + w) * (1 + difference) := mul_nonneg (by linarith) (by linarith)
    have hdown : 0 ≤ (1 - w) * (1 - difference) := mul_nonneg (by linarith) (by linarith)
    have hpos : 0 < 1 + w * difference := by
      refine lt_of_le_of_ne (by nlinarith) fun hzero => hne (by linarith)
    have hlow : -1 ≤ (w + difference) / (1 + w * difference) := by
      rw [le_div_iff₀ hpos]
      linarith
    have hhigh : (w + difference) / (1 + w * difference) ≤ 1 := by
      rw [div_le_one hpos]
      linarith
    constructor <;> linarith

theorem InGamut.blendShares {first second : Color Rat} (h₁ : first.InGamut)
    (h₂ : second.InGamut) {p : Rat} (hp : InUnit p) : (blendShares first second p).InGamut := by
  have hw : InUnit (channelWeight p (first.alpha - second.alpha)) :=
    inUnit_channelWeight hp (by linarith [h₁.alpha.1, h₂.alpha.2])
      (by linarith [h₁.alpha.2, h₂.alpha.1])
  obtain ⟨hred₁, hgreen₁, hblue₁⟩ := h₁.inRange
  obtain ⟨hred₂, hgreen₂, hblue₂⟩ := h₂.inRange
  rw [blendShares_eq]
  exact ⟨⟨weighted_mem hw hred₁ hred₂, weighted_mem hw hgreen₁ hgreen₂,
    weighted_mem hw hblue₁ hblue₂⟩, weighted_mem hp h₁.alpha h₂.alpha⟩

theorem InGamut.mix {first second : Color Rat} (h₁ : first.InGamut) (h₂ : second.InGamut)
    {weight : Option (Dimension Rat)}
    (hweight : ∀ w, weight = some w → 0 ≤ w.value ∧ w.value ≤ 100) :
    (mix first second weight).InGamut := by
  refine h₁.blendShares h₂ ?_
  have hhundred {x : Rat} (hx : 0 ≤ x ∧ x ≤ 100) : InUnit (x / 100) :=
    ⟨div_nonneg hx.1 (by norm_num), (div_le_one (by norm_num)).2 hx.2⟩
  cases weight with
  | none => exact hhundred (x := 50) (by norm_num)
  | some w => exact hhundred (hweight w rfl)

theorem inGamut_white : (white : Color Rat).InGamut := by
  have hfull : (0 : Rat) ≤ 255 ∧ (255 : Rat) ≤ 255 := by norm_num
  exact ⟨⟨hfull, hfull, hfull⟩, inUnit_one⟩

theorem inGamut_black : (black : Color Rat).InGamut := by
  have hempty : (0 : Rat) ≤ 0 ∧ (0 : Rat) ≤ 255 := by norm_num
  exact ⟨⟨hempty, hempty, hempty⟩, inUnit_one⟩

end Color

/-! ## The functions by name -/

/-- Components that make a colour in gamut: bounded ones, or channels and an opacity in range. -/
def Construction.InBounds : Construction → (x y z alpha : Rat) → Prop
  | .rgb | .rgba => fun red green blue alpha => (⟨red, green, blue, alpha⟩ : Color Rat).InGamut
  | .hsl | .hsla | .hsv | .hsva => fun x y z alpha => 0 ≤ x ∧ InUnit y ∧ InUnit z ∧ InUnit alpha

theorem Construction.InBounds.inGamut_build {f : Construction} {x y z alpha : Rat}
    (h : f.InBounds x y z alpha) : (f.build x y z alpha).InGamut := by
  cases f with
  | rgb | rgba => exact h
  | hsl | hsla =>
    obtain ⟨hx, hy, hz, halpha⟩ := h
    exact Hsl.InBounds.inGamut_toColor ⟨hx, hy, hz, halpha⟩
  | hsv | hsva =>
    obtain ⟨hx, hy, hz, halpha⟩ := h
    exact Hsv.inGamut_toColor hx hy hz halpha

/-- The amounts of an adjustment: any, except where it is the weight of a mixture. -/
def Adjustment.Allows (f : Adjustment) (amount : Dimension Rat) : Prop :=
  f = .tint ∨ f = .shade → 0 ≤ amount.value ∧ amount.value ≤ 100

theorem Adjustment.Allows.inGamut_apply {f : Adjustment} {amount : Dimension Rat}
    (h : f.Allows amount) {c : Color Rat} (hc : c.InGamut) : (f.apply c amount).InGamut := by
  have hmix {other : Color Rat} (hother : other.InGamut)
      (hamount : 0 ≤ amount.value ∧ amount.value ≤ 100) :
      (Color.mix other c (some amount)).InGamut :=
    hother.mix hc fun w hw => Option.some.inj hw ▸ hamount
  cases hk : f.component? with
  | some k =>
    rw [apply_eq_adjust hk]
    exact hc.adjust fun x hx => hx.set (allows_edited hk amount _)
  | none =>
    cases f with
    | tint => exact hmix Color.inGamut_white (h (Or.inl rfl))
    | shade => exact hmix Color.inGamut_black (h (Or.inr rfl))
    | _ => cases hk

/-- The grey of a colour is the colour with no saturation left. -/
theorem Color.InGamut.greyscale {c : Color Rat} (h : c.InGamut) : c.greyscale.InGamut := by
  have hall : Adjustment.desaturate.Allows (Dimension.ofNumber 100) := by
    rintro (h | h) <;> cases h
  exact hall.inGamut_apply h

end StyleFunctions
