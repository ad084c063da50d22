import Mathlib.Tactic
import StyleFunctions.Number.Binary64
import StyleFunctions.Proofs.Color.Defined

/-!
# Mixtures as weighted averages

A mixture averages two colours by a share of the first.  The channels are averaged by a weight
that takes the opacities into account, and that is itself a share: of `p * (1 + d)` and
`(1 - p) * (1 - d)`, for a share `p` and a difference `d` of the opacities, the first part of the
whole.

* `Color.channelWeight_eq_part` — the weight in this form.
* `Color.channelWeight_swap`, `Color.channelWeight_one` and `Color.channelWeight_mono` — what
  follows for colours that trade places, for a whole share, and for growing ones.
* `Color.DividesByNoZero` — the quotients that are formed on the way to a mixture exist.  Those of
  the saturations are formed although nothing of them enters the mixture, and some do not exist:
  `Color.dividesByNoZero_iff`, `Color.mixture_divides_by_zero`.
* `Color.IsAverage` — what is expected of a weighted average of two colours.
* `Color.mixtures_are_averages` — mixtures are such averages, tints and shades among them.
-/

namespace StyleFunctions

open Checked

namespace Color

/-! ## The weight of the channels -/

/-- What the first colour adds to the channels, for its share and a difference of the opacities. -/
def firstPart (p d : Rat) : Rat := p * (1 + d)

/-- What the second colour adds to the channels. -/
def secondPart (p d : Rat) : Rat := (1 - p) * (1 - d)

/-- The weight is the part of the first colour in the whole.  Where there is nothing of either, it
is the share. -/
theorem channelWeight_eq_part (p d : Rat) :
    channelWeight p d =
      if firstPart p d + secondPart p d = 0 then p
      else firstPart p d / (firstPart p d + secondPart p d) := by
  have hwhole : 1 + (p * 2 - 1) * d = firstPart p d + secondPart p d := by
    rw [firstPart, secondPart]
    ring
  have hempty : (p * 2 - 1) * d = -1 ↔ firstPart p d + secondPart p d = 0 := by
    rw [← hwhole, add_comm, eq_neg_iff_add_eq_zero]
  rw [channelWeight_exact, hwhole]
  simp only [hempty]
  split
  · ring
  · rename_i hne
    have htwice : p * 2 - 1 + d + (firstPart p d + secondPart p d) = 2 * firstPart p d := by
      rw [firstPart, secondPart]
      ring
    rw [div_add_one hne, htwice]
    ring

/-- When the colours trade places, so do the weights. -/
theorem channelWeight_swap (p d : Rat) : channelWeight (1 - p) (-d) = 1 - channelWeight p d := by
  have hfirst : firstPart (1 - p) (-d) = secondPart p d := by
    rw [firstPart, secondPart]
    ring
  have hsecond : secondPart (1 - p) (-d) = firstPart p d := by
    rw [firstPart, secondPart]
    ring
  rw [channelWeight_eq_part, channelWeight_eq_part, hfirst, hsecond,
    add_comm (secondPart p d) (firstPart p d)]
  split
  · rfl
  · rename_i hne
    rw [one_sub_div hne, add_sub_cancel_left]

/-- The whole share is the whole weight, whatever the opacities. -/
theorem channelWeight_one (d : Rat) : channelWeight 1 d = 1 := by
  have hnone : secondPart 1 d = 0 := by
    rw [secondPart]
    ring
  rw [channelWeight_eq_part, hnone, add_zero]
  split
  · rfl
  · rename_i hne
    exact div_self hne

theorem channelWeight_zero (d : Rat) : channelWeight 0 d = 0 := by
  have h := channelWeight_swap 1 (-d)
  rwa [neg_neg, sub_self, channelWeight_one, sub_self] at h

/-- Both colours show while neither has the whole share. -/
theorem whole_pos {p d : Rat} (hp₀ : 0 < p) (hp₁ : p < 1) (h₀ : -1 ≤ d) (h₁ : d ≤ 1) :
    0 < firstPart p d + secondPart p d := by
  rw [firstPart, secondPart]
  rcases le_total 0 d with hd | hd
  · have hfirst : 0 < p * (1 + d) := mul_pos hp₀ (by linarith)
    have hsecond : 0 ≤ (1 - p) * (1 - d) := mul_nonneg (by linarith) (by linarith)
    linarith
  · have hfirst : 0 ≤ p * (1 + d) := mul_nonneg hp₀.le (by linarith)
    have hsecond : 0 < (1 - p) * (1 - d) := mul_pos (by linarith) (by linarith)
    linarith

/-- A larger share does not have a smaller weight. -/
theorem channelWeight_mono {p q d : Rat} (hp : InUnit p) (hq : InUnit q) (h : p ≤ q)
    (h₀ : -1 ≤ d) (h₁ : d ≤ 1) : channelWeight p d ≤ channelWeight q d := by
  rcases hp.1.eq_or_lt with rfl | hp₀
  · rw [channelWeight_zero]
    exact (inUnit_channelWeight hq h₀ h₁).1
  · rcases hq.2.eq_or_lt with rfl | hq₁
    · rw [channelWeight_one]
      exact (inUnit_channelWeight hp h₀ h₁).2
    · have hwhole := whole_pos hp₀ (lt_of_le_of_lt h hq₁) h₀ h₁
      have hwhole' := whole_pos (lt_of_lt_of_le hp₀ h) hq₁ h₀ h₁
      have hfirst : firstPart p d ≤ firstPart q d :=
        mul_le_mul_of_nonneg_right h (by linarith)
      have hsecond : secondPart q d ≤ secondPart p d :=
        mul_le_mul_of_nonneg_right (by linarith) (by linarith)
      have hcross : firstPart p d * secondPart q d ≤ firstPart q d * secondPart p d :=
        mul_le_mul hfirst hsecond (mul_nonneg (by linarith) (by linarith))
          (mul_nonneg (by linarith) (by linarith))
      rw [channelWeight_eq_part, channelWeight_eq_part, if_neg hwhole.ne', if_neg hwhole'.ne',
        div_le_div_iff₀ hwhole hwhole']
      linarith

/-! ## Quotients -/

/-- Every quotient that is formed on the way to a mixture exists: those of hue and saturation, for
either colour, and the one of the weight. -/
structure DividesByNoZero (first second : Color Rat) (p : Rat) : Prop where
  hslOfFirst : first.HasHsl
  hslOfSecond : second.HasHsl
  weight : channelWeight (exact p) (exact (first.alpha - second.alpha)) =
    exact (channelWeight p (first.alpha - second.alpha))

/-- The weight never divides by zero.  A saturation does unless the colour is grey or its largest
and smallest channel add up to neither 0 nor 510. -/
theorem dividesByNoZero_iff (first second : Color Rat) (p : Rat) :
    DividesByNoZero first second p ↔
      (first.highest = first.lowest ∨
        first.highest + first.lowest ≠ 0 ∧ first.highest + first.lowest ≠ 510) ∧
      (second.highest = second.lowest ∨
        second.highest + second.lowest ≠ 0 ∧ second.highest + second.lowest ≠ 510) := by
  rw [← first.hasHsl_iff, ← second.hasHsl_iff]
  constructor
  · intro h
    exact ⟨h.hslOfFirst, h.hslOfSecond⟩
  · intro h
    exact ⟨h.1, h.2, channelWeight_checked _ _⟩

/-! ## Averages -/

/-- Every channel and the opacity lie between those of two colours. -/
def IsBetween (c first second : Color Rat) : Prop :=
  (c.red ∈ Set.uIcc first.red second.red ∧ c.green ∈ Set.uIcc first.green second.green ∧
    c.blue ∈ Set.uIcc first.blue second.blue) ∧
  c.alpha ∈ Set.uIcc first.alpha second.alpha

/-- What is expected of a weighted average of two colours: `mixed p` for a share `p` of the first,
and `checked` for the same over numbers that notice division by zero. -/
structure IsAverage (first second : Color Rat) (mixed : Rat → Color Rat)
    (checked : Checked → Color Checked) : Prop where
  /-- The mixture divides by no zero exactly if each colour is grey or its largest and smallest
  channel add up to neither 0 nor 510. -/
  divides (p : Rat) : DividesByNoZero first second p ↔
    (first.highest = first.lowest ∨
      first.highest + first.lowest ≠ 0 ∧ first.highest + first.lowest ≠ 510) ∧
    (second.highest = second.lowest ∨
      second.highest + second.lowest ≠ 0 ∧ second.highest + second.lowest ≠ 510)
  /-- In any case no quotient by zero enters the result. -/
  defined (p : Rat) : checked (exact p) = (mixed p).map exact
  /-- A colour mixed with itself stays as it is. -/
  same (p : Rat) : first = second → mixed p = first
  /-- The colours can trade places. -/
  swap (p : Rat) : mixed p = blendShares second first (1 - p)
  /-- The whole share gives the first colour. -/
  one : mixed 1 = first
  /-- No share gives the second colour. -/
  zero : mixed 0 = second
  /-- The channels are averages by one weight, and the opacity is the average by the share. -/
  weighted (p : Rat) :
    let w := channelWeight p (first.alpha - second.alpha)
    mixed p = ⟨first.red * w + second.red * (1 - w), first.green * w + second.green * (1 - w),
      first.blue * w + second.blue * (1 - w), first.alpha * p + second.alpha * (1 - p)⟩
  /-- Opacities and shares between 0 and 1 lead to colours between the two. -/
  between (p : Rat) : InUnit first.alpha → InUnit second.alpha → InUnit p →
    (mixed p).IsBetween first second
  /-- The weight of the first colour does not fall as its share grows. -/
  monotone (p q : Rat) : InUnit first.alpha → InUnit second.alpha → InUnit p → InUnit q → p ≤ q →
    channelWeight p (first.alpha - second.alpha) ≤ channelWeight q (first.alpha - second.alpha)

theorem weighted_mem_uIcc {w : Rat} (hw : InUnit w) (a b : Rat) :
    a * w + b * (1 - w) ∈ Set.uIcc a b :=
  weighted_mem hw ⟨inf_le_left, le_sup_left⟩ ⟨inf_le_right, le_sup_right⟩

theorem difference_mem {a b : Rat} (ha : InUnit a) (hb : InUnit b) : -1 ≤ a - b ∧ a - b ≤ 1 :=
  ⟨by linarith [ha.1, hb.2], by linarith [ha.2, hb.1]⟩

theorem isAverage_blendShares (first second : Color Rat) :
    IsAverage first second (blendShares first second)
      (blendShares (first.map exact) (second.map exact)) where
  divides p := dividesByNoZero_iff first second p
  defined p := blendShares_checked first second p
  same p h := by
    subst h
    rw [blendShares_eq, sub_self]
    simp only [← mul_add, add_sub_cancel, mul_one]
  swap p := by
    have hweight : channelWeight (1 - p) (second.alpha - first.alpha) =
        1 - channelWeight p (first.alpha - second.alpha) := by
      rw [← neg_sub first.alpha, channelWeight_swap]
    rw [blendShares_eq, blendShares_eq]
    simp only [hweight, sub_sub_cancel, mk.injEq]
    exact ⟨add_comm _ _, add_comm _ _, add_comm _ _, add_comm _ _⟩
  one := by
    rw [blendShares_eq]
    simp only [channelWeight_one, sub_self, mul_one, mul_zero, add_zero]
  zero := by
    rw [blendShares_eq]
    simp only [channelWeight_zero, sub_zero, mul_one, mul_zero, zero_add]
  weighted p := blendShares_eq first second p
  between p h₁ h₂ hp := by
    obtain ⟨hlow, hhigh⟩ := difference_mem h₁ h₂
    have hw := inUnit_channelWeight hp hlow hhigh
    rw [blendShares_eq]
    exact ⟨⟨weighted_mem_uIcc hw _ _, weighted_mem_uIcc hw _ _, weighted_mem_uIcc hw _ _⟩,
      weighted_mem_uIcc hp _ _⟩
  monotone p q h₁ h₂ hp hq h := by
    obtain ⟨hlow, hhigh⟩ := difference_mem h₁ h₂
    exact channelWeight_mono hp hq h hlow hhigh

/-! ## Mixtures, tints and shades -/

/-- A share in percent. -/
theorem mix_percent (first second : Color Rat) (p : Rat) (unit : String) :
    mix first second (some ⟨p * 100, unit⟩) = blendShares first second p := by
  have hdef : mix first second (some ⟨p * 100, unit⟩) =
      blendShares first second (p * 100 / 100) := rfl
  rw [hdef, mul_div_cancel_right₀ _ (by norm_num)]

theorem isAverage_mix (first second : Color Rat) (unit : String) :
    IsAverage first second (fun p => mix first second (some ⟨p * 100, unit⟩))
      (fun p => mix (first.map exact) (second.map exact) (some ⟨p * 100, unit⟩)) := by
  have haverage := isAverage_blendShares first second
  have hmix : (fun p => mix first second (some ⟨p * 100, unit⟩)) = blendShares first second := by
    funext p
    exact mix_percent first second p unit
  rw [hmix]
  refine { haverage with defined := ?_ }
  intro p
  rw [← mix_percent first second p unit]
  exact mix_checked first second (some ⟨p * 100, unit⟩)

/-- Mixtures of any two colours are weighted averages, whether by a share or by a percentage; so
are tints and shades, as mixtures with white and black.  They divide by no zero exactly where both
colours have a saturation, and are averages in any case. -/
theorem mixtures_are_averages (first second : Color Rat) (unit : String) :
    IsAverage first second (blendShares first second)
      (blendShares (first.map exact) (second.map exact)) ∧
    IsAverage first second (fun p => mix first second (some ⟨p * 100, unit⟩))
      (fun p => mix (first.map exact) (second.map exact) (some ⟨p * 100, unit⟩)) ∧
    IsAverage white second (fun p => second.tint ⟨p * 100, unit⟩)
      (fun p => (second.map exact).tint ⟨p * 100, unit⟩) ∧
    IsAverage black second (fun p => second.shade ⟨p * 100, unit⟩)
      (fun p => (second.map exact).shade ⟨p * 100, unit⟩) :=
  ⟨isAverage_blendShares first second, isAverage_mix first second unit,
    isAverage_mix white second unit, isAverage_mix black second unit⟩

/-- Clear red and opaque blue, for which the weight of a whole share has no quotient, and a tint. -/
theorem mixtures_are_averages_clear_red :
    let red : Color Rat := ⟨255, 0, 0, 0⟩
    let blue : Color Rat := ⟨0, 0, 255, 1⟩
    InUnit red.alpha ∧ InUnit blue.alpha ∧ InUnit (1 / 4) ∧
      (1 * 2 - 1) * (red.alpha - blue.alpha) = -1 ∧
      DividesByNoZero red blue 1 ∧
      blendShares red blue 1 = red ∧
      blendShares (red.map exact) (blue.map exact) (exact 1) = (blendShares red blue 1).map exact ∧
      blendShares red blue (1 / 4) = blendShares blue red (1 - 1 / 4) ∧
      (blendShares red blue (1 / 4)).IsBetween red blue ∧
      channelWeight (1 / 4) (red.alpha - blue.alpha) ≤ channelWeight 1 (red.alpha - blue.alpha) ∧
      red.tint ⟨0 * 100, "%"⟩ = red := by
  intro red blue
  have hred : InUnit red.alpha := inUnit_zero
  have hblue : InUnit blue.alpha := inUnit_one
  have hquarter : InUnit (1 / 4) := by
    rw [InUnit]
    norm_num
  obtain ⟨h, -, -, -⟩ := mixtures_are_averages red blue "%"
  obtain ⟨-, -, htint, -⟩ := mixtures_are_averages white red "%"
  have hdivides : DividesByNoZero red blue 1 := by
    rw [h.divides]
    norm_num [red, blue, highest, lowest]
  refine ⟨hred, hblue, hquarter, by norm_num [red, blue], hdivides, h.one, h.defined 1,
    h.swap (1 / 4), h.between (1 / 4) hred hblue hquarter, ?_, htint.zero⟩
  exact h.monotone (1 / 4) 1 hred hblue hquarter inUnit_one (by norm_num)

/-- A red above its range with green and blue just below the top of theirs, and channels around
zero: mixed with white, each divides by zero for its saturation, which is infinite in binary64.
The mixtures exist nevertheless. -/
theorem mixture_divides_by_zero :
    let light : Color Rat := ⟨256, 254, 254, 1⟩
    let dark : Color Rat := ⟨1, -1, 0, 1⟩
    ¬ DividesByNoZero light white (1 / 2) ∧ ¬ DividesByNoZero white dark (1 / 2) ∧
      (light.map exact).toHsl.saturation = undefined ∧
      (dark.map exact).toHsl.saturation = undefined ∧
      (⟨256, 254, 254, 1⟩ : Color Float).toHsl.saturation = Binary64.infinity ∧
      blendShares (light.map exact) (white.map exact) (exact (1 / 2)) =
        (⟨511 / 2, 509 / 2, 509 / 2, 1⟩ : Color Rat).map exact := by
  intro light dark
  refine ⟨?_, ?_, by decide +kernel⟩
  · rw [dividesByNoZero_iff]
    norm_num [light, highest, lowest]
  · rw [dividesByNoZero_iff]
    norm_num [dark, highest, lowest]

end Color

end StyleFunctions
