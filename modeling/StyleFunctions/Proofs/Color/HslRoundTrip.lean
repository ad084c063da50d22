import Mathlib.Tactic
import StyleFunctions.Proofs.Color.Division
import StyleFunctions.Proofs.Color.HueCircle

/-!
# Hue, saturation and lightness there and back

The two conversions are inverse to each other wherever they lose nothing.

* `Hsl.toHsl_toColor` — hue, saturation, lightness and opacity are read back off their colour,
  for every hue of the first turn, every positive saturation and every lightness between 0 and 1.
* `Color.toColor_toHsl` — a colour comes back from its hue, saturation and lightness, whether its
  channels lie in their range or not, unless its largest and smallest channel differ and add up
  to 0 or 510.

Both go by way of the place on the hue circle, which leaves the levels to be matched:
`Hsl.hslSaturation_levels` and `Hsl.highLevel_hslSaturation`.
-/

namespace StyleFunctions

/-! ## Levels and saturation -/

namespace Hsl

theorem lowLevel_add_highLevel (s l : Rat) : lowLevel s l + highLevel s l = l * 2 := by
  rw [lowLevel]
  ring

/-- The levels are as far apart as saturation and lightness together allow. -/
theorem highLevel_sub_lowLevel (s l : Rat) :
    highLevel s l - lowLevel s l = s * (if l ≤ 1 / 2 then 2 * l else 2 - 2 * l) := by
  rw [lowLevel, highLevel_exact]
  split <;> ring

theorem lowLevel_lt_highLevel {s l : Rat} (hs : 0 < s) (hl₀ : 0 < l) (hl₁ : l < 1) :
    lowLevel s l < highLevel s l := by
  rw [← sub_pos, highLevel_sub_lowLevel]
  refine mul_pos hs ?_
  split <;> linarith

/-- The saturation is the spread of the levels relative to the largest one possible. -/
theorem hslSaturation_levels {l : Rat} (s : Rat) (hl₀ : 0 < l) (hl₁ : l < 1) :
    Color.hslSaturation (highLevel s l) (lowLevel s l) l = s := by
  have hsum := lowLevel_add_highLevel s l
  rw [Color.hslSaturation_exact, highLevel_sub_lowLevel]
  split
  · have hdivisor : 2 - highLevel s l - lowLevel s l = 2 - 2 * l := by linarith
    rw [if_neg (by linarith), hdivisor, mul_div_cancel_right₀ _ (by linarith)]
  · have hdivisor : highLevel s l + lowLevel s l = 2 * l := by linarith
    rw [if_pos (by linarith), hdivisor, mul_div_cancel_right₀ _ (by linarith)]

/-- Lightness and saturation of two levels give back the higher one. -/
theorem highLevel_hslSaturation {low high : Rat} (h₀ : high + low ≠ 0) (h₂ : high + low ≠ 2) :
    highLevel (Color.hslSaturation high low ((high + low) / 2)) ((high + low) / 2) = high := by
  rw [highLevel_exact, Color.hslSaturation_exact]
  split
  · rw [if_neg (by linarith)]
    field_simp
    ring
  · have hdivisor : 2 - high - low ≠ 0 := by
      rw [sub_sub, sub_ne_zero]
      exact h₂.symm
    rw [if_pos (by linarith)]
    field_simp
    ring

theorem lowLevel_hslSaturation {low high : Rat} (h₀ : high + low ≠ 0) (h₂ : high + low ≠ 2) :
    lowLevel (Color.hslSaturation high low ((high + low) / 2)) ((high + low) / 2) = low := by
  rw [lowLevel, highLevel_hslSaturation h₀ h₂]
  ring

/-- Without saturation all channels are at the level of the lightness. -/
theorem toColor_of_saturation_zero (h l alpha : Rat) :
    Hsl.toColor ⟨h, 0, l, alpha⟩ = ⟨l * 255, l * 255, l * 255, alpha⟩ := by
  have hhigh : highLevel 0 l = l := by
    rw [highLevel_exact]
    split <;> ring
  have hlow : lowLevel 0 l = l := by
    rw [lowLevel, hhigh]
    ring
  rw [toColor_exact, colorAt, hhigh, hlow]
  simp only [channelLevel_same]

/-! ## From hue, saturation and lightness and back -/

/-- A place, saturation, lightness and opacity are read back off their colour. -/
theorem toHsl_toColor_degrees {s l : Rat} (p : HuePlace) (alpha : Rat) (hs : 0 < s) (hl₀ : 0 < l)
    (hl₁ : l < 1) :
    (Hsl.toColor ⟨p.degrees, s, l, alpha⟩).toHsl = ⟨p.degrees, s, l, alpha⟩ := by
  have hlightness : (highLevel s l + lowLevel s l) / 2 = l := by
    rw [add_comm, lowLevel_add_highLevel]
    ring
  calc (Hsl.toColor ⟨p.degrees, s, l, alpha⟩).toHsl
      = (p.color (lowLevel s l) (highLevel s l) alpha).toHsl := by rw [toColor_degrees]
    _ = ⟨p.degrees, Color.hslSaturation (highLevel s l) (lowLevel s l) l, l, alpha⟩ := by
        rw [p.toHsl_color (lowLevel_lt_highLevel hs hl₀ hl₁), hlightness]
    _ = ⟨p.degrees, s, l, alpha⟩ := by rw [hslSaturation_levels s hl₀ hl₁]

/-- Hue, saturation, lightness and opacity are read back off their colour. -/
theorem toHsl_toColor {h s l : Rat} (alpha : Rat) (h₀ : 0 ≤ h) (h₁ : h < 360) (hs : 0 < s)
    (hl₀ : 0 < l) (hl₁ : l < 1) :
    (Hsl.toColor ⟨h, s, l, alpha⟩).toHsl = ⟨h, s, l, alpha⟩ := by
  obtain ⟨p, rfl⟩ := HuePlace.exists_degrees h₀ h₁
  exact toHsl_toColor_degrees p alpha hs hl₀ hl₁

/-- Of magenta, in which red and blue tie for the largest channel. -/
theorem toHsl_toColor_magenta :
    (0 : Rat) ≤ 300 ∧ (300 : Rat) < 360 ∧ (0 : Rat) < 1 ∧ (0 : Rat) < 1 / 4 ∧ (1 / 4 : Rat) < 1 ∧
      (Hsl.toColor (⟨300, 1, 1 / 4, 1 / 3⟩ : Hsl Rat)).toHsl = ⟨300, 1, 1 / 4, 1 / 3⟩ :=
  ⟨by norm_num, by norm_num, by norm_num, by norm_num, by norm_num,
    toHsl_toColor (1 / 3) (by norm_num) (by norm_num) (by norm_num) (by norm_num) (by norm_num)⟩

end Hsl

/-! ## From channels and back -/

namespace Color

/-- All channels lie in the range from 0 to 255. -/
def InRange (c : Color Rat) : Prop :=
  (0 ≤ c.red ∧ c.red ≤ 255) ∧ (0 ≤ c.green ∧ c.green ≤ 255) ∧ 0 ≤ c.blue ∧ c.blue ≤ 255

theorem lowest_le_highest (c : Color Rat) : c.lowest ≤ c.highest :=
  c.lowest_le.1.trans c.le_highest.1

theorem inRange_iff (c : Color Rat) : c.InRange ↔ 0 ≤ c.lowest ∧ c.highest ≤ 255 := by
  simp only [InRange, lowest, highest, le_inf_iff, sup_le_iff]
  tauto

/-- A colour in range whose channels are not all equal has neither a black nor a white sum. -/
theorem InRange.sum_ne {c : Color Rat} (h : c.InRange) (hne : c.highest ≠ c.lowest) :
    c.highest + c.lowest ≠ 0 ∧ c.highest + c.lowest ≠ 510 := by
  obtain ⟨hlow, hhigh⟩ := c.inRange_iff.1 h
  have hlt := lt_of_le_of_ne c.lowest_le_highest hne.symm
  constructor <;> intro hsum <;> linarith

theorem toColor_toHsl_of_grey {c : Color Rat} (h : c.highest = c.lowest) :
    c.toHsl.toColor = c := by
  obtain ⟨hr, hg, hb⟩ := c.le_highest
  obtain ⟨hr', hg', hb'⟩ := c.lowest_le
  rw [← h] at hr' hg' hb'
  have hlevel : c.highest / 255 * 255 = c.highest := by ring
  rw [toHsl_of_grey h, Hsl.toColor_of_saturation_zero, hlevel]
  congr 1 <;> apply le_antisymm <;> assumption

/-- The place and the levels of a colour make up the colour again. -/
theorem toColor_toHsl_of_ne {c : Color Rat} (h : c.highest ≠ c.lowest)
    (h₀ : c.highest + c.lowest ≠ 0) (h₂ : c.highest + c.lowest ≠ 510) :
    c.toHsl.toColor = c := by
  have hlt : c.lowest < c.highest := lt_of_le_of_ne c.lowest_le_highest h.symm
  obtain ⟨low, hlow⟩ : ∃ low, low = c.lowest / 255 := ⟨_, rfl⟩
  obtain ⟨high, hhigh⟩ : ∃ high, high = c.highest / 255 := ⟨_, rfl⟩
  obtain ⟨p, hp⟩ := exists_place hlt
  rw [← hlow, ← hhigh] at hp
  have hsum₀ : high + low ≠ 0 := by
    intro hsum
    exact h₀ (by linarith)
  have hsum₂ : high + low ≠ 2 := by
    intro hsum
    exact h₂ (by linarith)
  obtain ⟨s, hs⟩ : ∃ s, s = hslSaturation high low ((high + low) / 2) := ⟨_, rfl⟩
  calc c.toHsl.toColor
      = (p.color low high c.alpha).toHsl.toColor := by rw [← hp]
    _ = Hsl.toColor ⟨p.degrees, s, (high + low) / 2, c.alpha⟩ := by
        rw [p.toHsl_color (by linarith), hs]
    _ = p.color (Hsl.lowLevel s ((high + low) / 2)) (Hsl.highLevel s ((high + low) / 2))
          c.alpha := Hsl.toColor_degrees ..
    _ = p.color low high c.alpha := by
        rw [hs, Hsl.lowLevel_hslSaturation hsum₀ hsum₂, Hsl.highLevel_hslSaturation hsum₀ hsum₂]
    _ = c := hp.symm

/-- Where the conversion to hue, saturation and lightness divides by no zero, it is undone by
the conversion back. -/
theorem HasHsl.toColor_eq {c : Color Rat} (h : c.HasHsl) : c.toHsl.toColor = c := by
  rcases eq_or_ne c.highest c.lowest with hgrey | hne
  · exact toColor_toHsl_of_grey hgrey
  · obtain ⟨h₀, h₂⟩ := (c.hasHsl_iff.1 h).resolve_left hne
    exact toColor_toHsl_of_ne hne h₀ h₂

theorem InRange.hasHsl {c : Color Rat} (h : c.InRange) : c.HasHsl := by
  rw [hasHsl_iff]
  exact or_iff_not_imp_left.2 h.sum_ne

/-- A colour of any channels comes back from its hue, saturation and lightness, and no division
on the way there is by zero, if its largest and smallest channel are equal or add up to neither
0 nor 510; so do all colours in range. -/
theorem toColor_toHsl (c : Color Rat) :
    (c.highest = c.lowest ∨ c.highest + c.lowest ≠ 0 ∧ c.highest + c.lowest ≠ 510 →
      c.HasHsl ∧ c.toHsl.toColor = c) ∧
    (c.InRange → c.HasHsl ∧ c.toHsl.toColor = c) := by
  constructor
  · intro h
    have hdefined := c.hasHsl_iff.2 h
    exact ⟨hdefined, hdefined.toColor_eq⟩
  · intro h
    exact ⟨h.hasHsl, h.hasHsl.toColor_eq⟩

/-- Of a colour with channels on either side of the range. -/
theorem toColor_toHsl_out_of_range :
    (⟨300, -20, 128, 1 / 2⟩ : Color Rat).highest + (⟨300, -20, 128, 1 / 2⟩ : Color Rat).lowest =
        280 ∧
      (⟨300, -20, 128, 1 / 2⟩ : Color Rat).HasHsl ∧
      (⟨300, -20, 128, 1 / 2⟩ : Color Rat).toHsl.toColor = ⟨300, -20, 128, 1 / 2⟩ := by
  have hsum : (⟨300, -20, 128, 1 / 2⟩ : Color Rat).highest +
      (⟨300, -20, 128, 1 / 2⟩ : Color Rat).lowest = 280 := by
    norm_num [highest, lowest]
  refine ⟨hsum, (toColor_toHsl _).1 (Or.inr ?_)⟩
  rw [hsum]
  norm_num

end Color

end StyleFunctions
