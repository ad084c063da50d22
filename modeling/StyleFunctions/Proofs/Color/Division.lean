import Mathlib.Tactic
import StyleFunctions.Proofs.Color.HueCircle
import StyleFunctions.Proofs.Number.Checked

/-!
# Divisions in the formulas of colours

A conversion that divides by no zero gives the same result over checked numbers as over the
rationals.  `Color.HasHsl` says so of the conversion to hue, saturation and lightness, and
`Color.hasHsl_iff` when it holds: for greys, and for all colours whose largest and smallest
channel do not add up to 0 or 510.
-/

namespace StyleFunctions

open Checked

/-- The colour with a function applied to all its components. -/
def Color.map {α β : Type} (f : α → β) (c : Color α) : Color β :=
  ⟨f c.red, f c.green, f c.blue, f c.alpha⟩

/-- Hue, saturation, lightness and opacity with a function applied to each. -/
def Hsl.map {α β : Type} (f : α → β) (c : Hsl α) : Hsl β :=
  ⟨f c.hue, f c.saturation, f c.lightness, f c.alpha⟩

namespace Color

/-- The conversion of a colour to hue, saturation and lightness divides by no zero. -/
def HasHsl (c : Color Rat) : Prop := (c.map exact).toHsl = c.toHsl.map exact

/-- The divisor of the saturation: the largest spread at a lightness. -/
def saturationDivisor (high low lightness : Rat) : Rat :=
  if 1 / 2 < lightness then 2 - high - low else high + low

theorem saturationDivisor_ne_zero_iff (high low : Rat) :
    saturationDivisor high low ((high + low) / 2) ≠ 0 ↔ high + low ≠ 0 ∧ high + low ≠ 2 := by
  rw [saturationDivisor]
  split
  · rename_i hlight
    have hsum : high + low ≠ 0 := by linarith
    rw [sub_sub, sub_ne_zero]
    exact ⟨fun h => ⟨hsum, h.symm⟩, fun h => h.2.symm⟩
  · rename_i hdark
    have hsum : high + low ≠ 2 := by
      intro hsum
      rw [hsum] at hdark
      norm_num at hdark
    exact ⟨fun h => ⟨h, hsum⟩, fun h => h.1⟩

theorem hslSaturation_eq_div (high low l : Rat) :
    hslSaturation high low l = (high - low) / saturationDivisor high low l := by
  rw [hslSaturation_exact, saturationDivisor]
  split <;> rfl

theorem hslSaturation_checked (high low l : Rat) :
    hslSaturation (exact high) (exact low) (exact l) =
      exact (high - low) / exact (saturationDivisor high low l) := by
  have hdef : hslSaturation (exact high) (exact low) (exact l) =
      if exact 0.5 < exact l then (exact high - exact low) / (exact 2 - exact high - exact low)
      else (exact high - exact low) / (exact high + exact low) := rfl
  have hhalf : (0.5 : Rat) = 1 / 2 := by norm_num
  rw [hdef, saturationDivisor, hhalf]
  simp only [exact_lt, exact_sub, exact_add]
  split <;> rfl

theorem hueSixths_checked {spread : Rat} (h : spread ≠ 0) (r g b high : Rat) :
    hueSixths (exact r) (exact g) (exact b) (exact high) (exact spread) =
      exact (hueSixths r g b high spread) := by
  have hdef : hueSixths (exact r) (exact g) (exact b) (exact high) (exact spread) =
      if (exact high == exact r) = true then
        (exact g - exact b) / exact spread + (if exact g < exact b then exact 6 else exact 0)
      else if (exact high == exact g) = true then
        (exact b - exact r) / exact spread + exact 2
      else (exact r - exact g) / exact spread + exact 4 := rfl
  rw [hdef, hueSixths_exact]
  simp only [exact_beq, decide_eq_true_eq, exact_lt, exact_sub, exact_div _ h, exact_add]
  split_ifs <;> rfl

/-- Over checked numbers only the divisions by the spread and for the saturation can fail. -/
theorem toHsl_checked (c : Color Rat) :
    (c.map exact).toHsl =
      let high := c.highest / 255
      let low := c.lowest / 255
      let l := (high + low) / 2
      if high = low then ⟨exact 0, exact 0, exact l, exact c.alpha⟩
      else
        ⟨hueSixths (exact (c.red / 255)) (exact (c.green / 255)) (exact (c.blue / 255))
            (exact high) (exact (high - low)) / exact 6 * exact 360,
          hslSaturation (exact high) (exact low) (exact l), exact l, exact c.alpha⟩ := by
  have hdef : (c.map exact).toHsl =
      let r := exact c.red / exact 255
      let g := exact c.green / exact 255
      let b := exact c.blue / exact 255
      let high := largest r g b
      let low := smallest r g b
      let l := (high + low) / exact 2
      if (high == low) = true then ⟨exact 0, exact 0, l, exact c.alpha⟩
      else
        ⟨hueSixths r g b high (high - low) / exact 6 * exact 360, hslSaturation high low l, l,
          exact c.alpha⟩ := rfl
  have hchannel (x : Rat) : exact x / exact 255 = exact (x / 255) := exact_div x (by norm_num)
  have hhigh : largest (exact (c.red / 255)) (exact (c.green / 255)) (exact (c.blue / 255)) =
      exact (c.highest / 255) := by
    rw [largest, max_exact, max_exact, highest, max_div_div_right (by norm_num),
      max_div_div_right (by norm_num)]
  have hlow : smallest (exact (c.red / 255)) (exact (c.green / 255)) (exact (c.blue / 255)) =
      exact (c.lowest / 255) := by
    rw [smallest, min_exact, min_exact, lowest, min_div_div_right (by norm_num),
      min_div_div_right (by norm_num)]
  rw [hdef]
  simp only [hchannel, hhigh, hlow, exact_beq, decide_eq_true_eq, exact_add, exact_sub,
    exact_div _ (show (2 : Rat) ≠ 0 by norm_num)]

/-- Exactly the colours with a largest and a smallest channel that differ and add up to 0 or 510
make the conversion divide by zero. -/
theorem hasHsl_iff (c : Color Rat) :
    c.HasHsl ↔ c.highest = c.lowest ∨ c.highest + c.lowest ≠ 0 ∧ c.highest + c.lowest ≠ 510 := by
  rw [HasHsl, toHsl_checked, toHsl_exact]
  simp only
  rcases eq_or_ne c.highest c.lowest with h | h
  · simp [h, Hsl.map]
  · have hne : c.highest / 255 ≠ c.lowest / 255 := by
      simpa [div_left_inj'] using h
    rw [if_neg hne, if_neg hne, hueSixths_checked (sub_ne_zero.2 hne),
      exact_div _ (show (6 : Rat) ≠ 0 by norm_num), exact_mul, hslSaturation_checked, Hsl.map]
    simp only [Hsl.mk.injEq, true_and, and_true, hslSaturation_eq_div, exact_div_eq_iff,
      saturationDivisor_ne_zero_iff, h, false_or]
    rw [← add_div]
    have hzero : (c.highest + c.lowest) / 255 ≠ 0 ↔ c.highest + c.lowest ≠ 0 := by simp
    have htwo : (c.highest + c.lowest) / 255 ≠ 2 ↔ c.highest + c.lowest ≠ 510 := by
      rw [ne_eq, div_eq_iff (by norm_num)]
      norm_num
    rw [hzero, htwo]

end Color

end StyleFunctions
