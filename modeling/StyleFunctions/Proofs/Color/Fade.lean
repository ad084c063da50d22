import Mathlib.Tactic
import StyleFunctions.Number.Binary64
import StyleFunctions.Proofs.Color.Defined

/-!
# Fading and the channels

A fade changes the opacity of a colour.  It takes the colour apart into hue, saturation and
lightness and puts it together again, so that the channels come back exactly if nothing is lost
on the way.

* `Color.toHsl_checked_of_not_hasHsl` — where the conversion divides by zero, the saturation is
  what is missing.
* `Hsl.toColor_of_saturation_undefined` — without a saturation there are no channels.
* `Adjustment.apply_alpha_eq_iff` — so fades keep the channels of exactly those colours that are
  grey, or whose largest and smallest channel add up to neither 0 nor 510.
-/

namespace StyleFunctions

open Checked

/-! ## Colours without a saturation -/

namespace Color

/-- Where the conversion divides by zero, hue and lightness are there and the saturation is not. -/
theorem toHsl_checked_of_not_hasHsl {c : Color Rat} (h : ¬ c.HasHsl) :
    (c.map exact).toHsl = { c.toHsl.map exact with saturation := undefined } := by
  obtain ⟨hne, hsum⟩ := not_or.1 (mt c.hasHsl_iff.2 h)
  have hne' : c.highest / 255 ≠ c.lowest / 255 := by
    simpa [div_left_inj'] using hne
  have hdivisor : saturationDivisor (c.highest / 255) (c.lowest / 255)
      ((c.highest / 255 + c.lowest / 255) / 2) = 0 := by
    by_contra hcon
    obtain ⟨h₀, h₂⟩ := (saturationDivisor_ne_zero_iff _ _).1 hcon
    refine hsum ⟨fun hzero => h₀ ?_, fun hfull => h₂ ?_⟩
    · rw [← add_div, hzero, zero_div]
    · rw [← add_div, hfull]
      norm_num
  rw [toHsl_checked, toHsl_exact]
  simp only [if_neg hne', hslSaturation_checked, hdivisor, exact_div_zero,
    hueSixths_checked (sub_ne_zero.2 hne'), exact_div_ofNat, exact_mul, Hsl.map]

end Color

namespace Hsl

theorem channelLevel_undefined (t : Rat) :
    channelLevel undefined undefined (exact t) = undefined := by
  simp only [channelLevel]
  split_ifs <;> rfl

theorem highLevel_undefined (l : Rat) : highLevel undefined (exact l) = undefined := by
  unfold highLevel
  split_ifs <;> rfl

/-- Without a saturation no channel has a level. -/
theorem toColor_of_saturation_undefined (h l alpha : Rat) :
    Hsl.toColor ⟨exact h, undefined, exact l, exact alpha⟩ =
      ⟨undefined, undefined, undefined, exact alpha⟩ := by
  have hdef : Hsl.toColor ⟨exact h, undefined, exact l, exact alpha⟩ =
      let turn := exact (Scalar.remainder h 360) / exact 360
      let high := highLevel undefined (exact l)
      let low := exact l * exact 2 - high
      ⟨channelLevel low high (turn + exact 1 / exact 3) * exact 255,
        channelLevel low high turn * exact 255,
        channelLevel low high (turn - exact 1 / exact 3) * exact 255, exact alpha⟩ := rfl
  have hlow : exact l * exact 2 - undefined = undefined := rfl
  rw [hdef]
  simp only [highLevel_undefined, hlow, exact_div_ofNat, exact_add, exact_sub,
    channelLevel_undefined]
  rfl

end Hsl

/-! ## Fades -/

namespace Adjustment

variable {f : Adjustment}

/-- A fade leaves a colour without channels where the saturation is missing. -/
theorem apply_alpha_of_not_hasHsl (hf : f.component? = some .alpha) {c : Color Rat}
    (h : ¬ c.HasHsl) (amount : Dimension Rat) :
    f.apply (c.map exact) (amount.map exact) =
      ⟨undefined, undefined, undefined, exact (f.newValue amount c.alpha)⟩ := by
  have hedit : f.edit .alpha (amount.map exact) (c.map exact).toHsl =
      ⟨exact c.toHsl.hue, undefined, exact c.toHsl.lightness,
        exact (f.newValue amount c.alpha)⟩ := by
    rw [Color.toHsl_checked_of_not_hasHsl h, edit, Hsl.get, Hsl.set, Hsl.map, Color.toHsl_alpha,
      edited_checked, edited_exact]
  rw [apply_eq_adjust hf, Color.adjust, hedit, Hsl.toColor_of_saturation_undefined]

/-- A fade of a colour that has hue, saturation and lightness changes the opacity alone. -/
theorem apply_alpha_of_hasHsl (hf : f.component? = some .alpha) {c : Color Rat} (h : c.HasHsl)
    (amount : Dimension Rat) :
    f.apply c amount = { c with alpha := f.newValue amount c.alpha } := by
  have hcolor : c.toHsl.toColor = c := h.toColor_eq
  rw [apply_eq_adjust hf, Color.adjust, edit, edited_exact, Hsl.get, Hsl.set, Color.toHsl_alpha]
  calc Hsl.toColor { c.toHsl with alpha := f.newValue amount c.alpha }
      = { c.toHsl.toColor with alpha := f.newValue amount c.alpha } := rfl
    _ = { c with alpha := f.newValue amount c.alpha } := by rw [hcolor]

/-- Of any colour and by any amount: over checked numbers a fade keeps the channels and clamps the
new opacity exactly if the colour is grey or its largest and smallest channel add up to neither
0 nor 510; then it does so over the rationals as well.  Of all other colours it loses every
channel. -/
theorem apply_alpha_eq_iff (hf : f.component? = some .alpha) (c : Color Rat)
    (amount : Dimension Rat) :
    (f.apply (c.map exact) (amount.map exact) =
        ({ c with alpha := f.newValue amount c.alpha } : Color Rat).map exact ↔
      c.highest = c.lowest ∨ c.highest + c.lowest ≠ 0 ∧ c.highest + c.lowest ≠ 510) ∧
    (c.highest = c.lowest ∨ c.highest + c.lowest ≠ 0 ∧ c.highest + c.lowest ≠ 510 →
      f.apply c amount = { c with alpha := f.newValue amount c.alpha }) ∧
    (¬ (c.highest = c.lowest ∨ c.highest + c.lowest ≠ 0 ∧ c.highest + c.lowest ≠ 510) →
      f.apply (c.map exact) (amount.map exact) =
        ⟨undefined, undefined, undefined, exact (f.newValue amount c.alpha)⟩) := by
  rw [← c.hasHsl_iff]
  refine ⟨⟨?_, ?_⟩, fun h => apply_alpha_of_hasHsl hf h amount,
    fun h => apply_alpha_of_not_hasHsl hf h amount⟩
  · intro heq
    by_contra h
    rw [apply_alpha_of_not_hasHsl hf h] at heq
    exact Checked.noConfusion (congrArg Color.red heq)
  · intro h
    rw [f.apply_checked amount h, apply_alpha_of_hasHsl hf h]

/-- Channels on either side of their range, and three quarters of opacity less a half, given as a
percentage, or plus an eighth, given as a plain number. -/
theorem apply_alpha_eq_iff_out_of_range :
    let c : Color Rat := ⟨300, -20, 128, 3 / 4⟩
    let half : Dimension Rat := ⟨50, "%"⟩
    let eighth : Dimension Rat := ⟨1 / 8, ""⟩
    fadeOut.component? = some .alpha ∧ fadeIn.component? = some .alpha ∧
      (c.highest = c.lowest ∨ c.highest + c.lowest ≠ 0 ∧ c.highest + c.lowest ≠ 510) ∧
      fadeOut.newValue half c.alpha = 1 / 4 ∧
      fadeOut.apply (c.map exact) (half.map exact) =
        (⟨300, -20, 128, 1 / 4⟩ : Color Rat).map exact ∧
      fadeOut.apply c half = ⟨300, -20, 128, 1 / 4⟩ ∧
      fadeIn.newValue eighth c.alpha = 7 / 8 ∧
      fadeIn.apply (c.map exact) (eighth.map exact) =
        (⟨300, -20, 128, 7 / 8⟩ : Color Rat).map exact ∧
      fadeIn.apply c eighth = ⟨300, -20, 128, 7 / 8⟩ := by
  intro c half eighth
  have hsum : c.highest = c.lowest ∨ c.highest + c.lowest ≠ 0 ∧ c.highest + c.lowest ≠ 510 := by
    norm_num [c, Color.highest, Color.lowest]
  have hvalue : fadeOut.newValue half c.alpha = 1 / 4 := by decide +kernel
  have hplain : fadeIn.newValue eighth c.alpha = 7 / 8 := by decide +kernel
  have hout : fadeOut.component? = some .alpha := rfl
  have hin : fadeIn.component? = some .alpha := rfl
  obtain ⟨hiff, hkept, -⟩ := apply_alpha_eq_iff hout c half
  obtain ⟨hiff', hkept', -⟩ := apply_alpha_eq_iff hin c eighth
  rw [hvalue] at hiff hkept
  rw [hplain] at hiff' hkept'
  exact ⟨hout, hin, hsum, hvalue, hiff.2 hsum, hkept hsum, hplain, hiff'.2 hsum, hkept' hsum⟩

/-- Red a little above its range, green and blue a little below the top of theirs: faded to a half,
the colour has no channel left over checked numbers, other channels over the rationals, and
nothing that is a number in binary64. -/
theorem fade_loses_channels :
    let light : Color Rat := ⟨256, 254, 254, 1⟩
    let half : Dimension Rat := ⟨50, "%"⟩
    fade.apply (light.map exact) (half.map exact) =
        ⟨undefined, undefined, undefined, exact (1 / 2)⟩ ∧
      fade.apply light half ≠ { light with alpha := 1 / 2 } ∧
      let faded := fade.apply (⟨256, 254, 254, 1⟩ : Color Float) ⟨50, "%"⟩
      Scalar.isNaN faded.red ∧ Scalar.isNaN faded.green ∧ Scalar.isNaN faded.blue := by
  decide +kernel

end Adjustment

end StyleFunctions
