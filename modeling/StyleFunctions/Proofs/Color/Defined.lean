import Mathlib.Tactic
import StyleFunctions.Proofs.Color.Division
import StyleFunctions.Proofs.Color.Gamut

/-!
# Formulas of colours that divide by no zero

Over checked numbers a formula gives the same result as over the rationals, as long as it divides
by no zero on the way.

* `Hsl.toColor_checked` and `Hsv.toColor_checked` — colours made from components: all divisors
  are constants.
* `Adjustment.apply_checked` — an adjusted colour, if the colour has hue, saturation and
  lightness.
* `Color.mix_checked` — any two colours mixed: the one divisor that could be zero is tested.
-/

namespace StyleFunctions

open Checked

/-! ## Hue, saturation and lightness -/

namespace Hsl

theorem wrapTurn_checked (t : Rat) : wrapTurn (exact t) = exact (wrapTurn t) := by
  have hdef : wrapTurn (exact t) =
      if exact t < exact 0 then exact t + exact 1
      else if exact 1 < exact t then exact t - exact 1 else exact t := rfl
  rw [hdef, wrapTurn_exact]
  simp only [exact_lt, exact_add, exact_sub]
  split_ifs <;> rfl

theorem channelLevel_checked (low high t : Rat) :
    channelLevel (exact low) (exact high) (exact t) = exact (channelLevel low high t) := by
  have hdef : channelLevel (exact low) (exact high) (exact t) =
      if wrapTurn (exact t) * exact 6 < exact 1 then
        exact low + (exact high - exact low) * wrapTurn (exact t) * exact 6
      else if wrapTurn (exact t) * exact 2 < exact 1 then exact high
      else if wrapTurn (exact t) * exact 3 < exact 2 then
        exact low + (exact high - exact low) * (exact 2 / exact 3 - wrapTurn (exact t)) * exact 6
      else exact low := rfl
  rw [hdef, channelLevel_exact, wrapTurn_checked, exact_div_ofNat]
  simp only [exact_lt, exact_add, exact_sub, exact_mul]
  split_ifs <;> rfl

theorem highLevel_checked (s l : Rat) :
    highLevel (exact s) (exact l) = exact (highLevel s l) := by
  have hdef : highLevel (exact s) (exact l) =
      if exact l ≤ exact 0.5 then exact l * (exact s + exact 1)
      else exact l + exact s - exact l * exact s := rfl
  have hhalf : (0.5 : Rat) = 1 / 2 := by norm_num
  rw [hdef, highLevel_exact, hhalf]
  simp only [exact_le, exact_add, exact_sub, exact_mul]
  split_ifs <;> rfl

/-- The conversion to channels divides by constants only. -/
theorem toColor_checked (x : Hsl Rat) : (x.map exact).toColor = x.toColor.map exact := by
  have hdef : (x.map exact).toColor =
      let turn := exact (Scalar.remainder x.hue 360) / exact 360
      let high := highLevel (exact x.saturation) (exact x.lightness)
      let low := exact x.lightness * exact 2 - high
      ⟨channelLevel low high (turn + exact 1 / exact 3) * exact 255,
        channelLevel low high turn * exact 255,
        channelLevel low high (turn - exact 1 / exact 3) * exact 255, exact x.alpha⟩ := rfl
  rw [hdef, toColor_exact, colorAt, lowLevel]
  simp only [highLevel_checked, exact_div_ofNat, exact_add, exact_sub, exact_mul,
    channelLevel_checked]
  rfl

end Hsl

/-! ## Hue, saturation and value -/

namespace Hsv

/-- Hue, saturation, value and opacity with a function applied to each. -/
def map {α β : Type} (f : α → β) (c : Hsv α) : Hsv β :=
  ⟨f c.hue, f c.saturation, f c.value, f c.alpha⟩

theorem sectorLevels_map {α β : Type} (f : α → β) (sector : Int) (top bottom falling rising : α) :
    sectorLevels sector (f top) (f bottom) (f falling) (f rising) =
      (sectorLevels sector top bottom falling rising).map f (Prod.map f f) := by
  unfold sectorLevels
  split <;> rfl

/-- The colour of a hue, saturation and value divides by constants only. -/
theorem toColor_checked (c : Hsv Rat) : (c.map exact).toColor = c.toColor.map exact := by
  have hdef : (c.map exact).toColor =
      let sixths := exact (Scalar.remainder (Scalar.trunc c.hue) 360) / exact 360 * exact 360 /
        exact 60
      let sector := Scalar.remainder (Scalar.trunc sixths) 6
      let part := sixths - sector
      let levels := sectorLevels (Scalar.toInt64 sector % 6) (exact c.value)
        (exact c.value * (exact 1 - exact c.saturation))
        (exact c.value * (exact 1 - part * exact c.saturation))
        (exact c.value * (exact 1 - (exact 1 - part) * exact c.saturation))
      ⟨levels.1 * exact 255, levels.2.1 * exact 255, levels.2.2 * exact 255, exact c.alpha⟩ := rfl
  have htrunc (x : Rat) : Scalar.trunc (exact x) = exact (Scalar.trunc x) := rfl
  have hremainder (x : Rat) (m : Nat) :
      Scalar.remainder (exact x) m = exact (Scalar.remainder x m) := rfl
  rw [hdef]
  simp only [exact_div_ofNat, exact_mul, htrunc, hremainder, exact_sub, sectorLevels_map,
    Prod.map_fst, Prod.map_snd]
  rfl

end Hsv

/-! ## Adjustments -/

/-- A dimension with a function applied to its number. -/
def Dimension.map {α β : Type} (f : α → β) (d : Dimension α) : Dimension β := ⟨f d.value, d.unit⟩

namespace Adjustment

theorem turnHue_checked (hue angle : Rat) :
    Color.turnHue (exact hue) (exact angle) = exact (Color.turnHue hue angle) := by
  have hdef : Color.turnHue (exact hue) (exact angle) =
      if exact (Scalar.remainder (hue + angle) 360) < exact 0 then
        exact (Scalar.remainder (hue + angle) 360) + exact 360
      else exact (Scalar.remainder (hue + angle) 360) := rfl
  rw [hdef, turnHue_exact]
  simp only [exact_lt, exact_add]
  split_ifs <;> rfl

theorem opacityShare_checked (amount : Dimension Rat) :
    Color.opacityShare (amount.map exact) = exact (Color.opacityShare amount) := by
  have hdef : Color.opacityShare (amount.map exact) =
      if amount.isPercentage = true then exact amount.value / exact 100
      else exact amount.value := rfl
  rw [hdef, exact_div_ofNat]
  exact (apply_ite exact _ _ _).symm

theorem edited_checked (f : Adjustment) (amount : Dimension Rat) (v : Rat) :
    f.edited (amount.map exact) (exact v) = exact (f.edited amount v) := by
  cases f with
  | saturate | lighten =>
    change Scalar.clampUnit (exact v + exact amount.value / exact 100) = _
    rw [exact_div_ofNat, exact_add, clampUnit_exact]
    rfl
  | desaturate | darken =>
    change Scalar.clampUnit (exact v - exact amount.value / exact 100) = _
    rw [exact_div_ofNat, exact_sub, clampUnit_exact]
    rfl
  | spin => exact turnHue_checked v amount.value
  | fadeIn =>
    rw [edited, opacityShare_checked, exact_add, clampUnit_exact]
    rfl
  | fadeOut =>
    rw [edited, opacityShare_checked, exact_sub, clampUnit_exact]
    rfl
  | fade =>
    rw [edited, opacityShare_checked, clampUnit_exact]
    rfl
  | tint | shade => rfl

theorem edit_checked (f : Adjustment) (k : HslComponent) (amount : Dimension Rat) (x : Hsl Rat) :
    f.edit k (amount.map exact) (x.map exact) = (f.edit k amount x).map exact := by
  cases k with
  | hue => exact congrArg (Hsl.mk · _ _ _) (f.edited_checked amount x.hue)
  | saturation => exact congrArg (Hsl.mk _ · _ _) (f.edited_checked amount x.saturation)
  | lightness => exact congrArg (Hsl.mk _ _ · _) (f.edited_checked amount x.lightness)
  | alpha => exact congrArg (Hsl.mk _ _ _ ·) (f.edited_checked amount x.alpha)

end Adjustment

/-! ## Mixtures -/

namespace Color

/-- The divisor of the weight is tested before it is used. -/
theorem channelWeight_checked (p difference : Rat) :
    channelWeight (exact p) (exact difference) = exact (channelWeight p difference) := by
  have hdef : channelWeight (exact p) (exact difference) =
      let w := exact p * exact 2 - exact 1
      ((if (w * exact difference == exact (-1)) = true then w
        else (w + exact difference) / (exact 1 + w * exact difference)) + exact 1) / exact 2 := rfl
  rw [hdef, channelWeight_exact]
  simp only [exact_mul, exact_sub, exact_add, exact_beq, decide_eq_true_eq]
  by_cases h : (p * 2 - 1) * difference = -1
  · rw [if_pos h, if_pos h, exact_add, exact_div_ofNat]
  · have hdivisor : 1 + (p * 2 - 1) * difference ≠ 0 := fun hzero => h (by linarith)
    rw [if_neg h, if_neg h, exact_div _ hdivisor, exact_add, exact_div_ofNat]

theorem blendShares_checked (first second : Color Rat) (p : Rat) :
    blendShares (first.map exact) (second.map exact) (exact p) =
      (blendShares first second p).map exact := by
  have hdef : blendShares (first.map exact) (second.map exact) (exact p) =
      let w := channelWeight (exact p) (exact first.alpha - exact second.alpha)
      let v := exact 1 - w
      ⟨exact first.red * w + exact second.red * v, exact first.green * w + exact second.green * v,
        exact first.blue * w + exact second.blue * v,
        exact first.alpha * exact p + exact second.alpha * (exact 1 - exact p)⟩ :=
    blendShares_eq ..
  rw [hdef, blendShares_eq]
  simp only [exact_sub, channelWeight_checked, exact_mul, exact_add]
  rfl

theorem mix_checked (first second : Color Rat) (weight : Option (Dimension Rat)) :
    mix (first.map exact) (second.map exact) (weight.map (Dimension.map exact)) =
      (mix first second weight).map exact := by
  cases weight with
  | none =>
    change blendShares (first.map exact) (second.map exact) (exact 50 / exact 100) = _
    rw [exact_div_ofNat, blendShares_checked]
    rfl
  | some w =>
    change blendShares (first.map exact) (second.map exact) (exact w.value / exact 100) = _
    rw [exact_div_ofNat, blendShares_checked]
    rfl

end Color

/-! ## The functions by name -/

theorem Construction.build_checked (f : Construction) (x y z alpha : Rat) :
    f.build (exact x) (exact y) (exact z) (exact alpha) = (f.build x y z alpha).map exact := by
  cases f with
  | rgb | rgba => rfl
  | hsl | hsla => exact Hsl.toColor_checked ⟨x, y, z, alpha⟩
  | hsv | hsva => exact Hsv.toColor_checked ⟨x, y, z, alpha⟩

/-- An adjustment of a colour that has hue, saturation and lightness divides by no zero. -/
theorem Adjustment.apply_checked (f : Adjustment) (amount : Dimension Rat) {c : Color Rat}
    (h : c.HasHsl) : f.apply (c.map exact) (amount.map exact) = (f.apply c amount).map exact := by
  cases hk : f.component? with
  | some k =>
    rw [Color.HasHsl] at h
    rw [apply_eq_adjust hk, apply_eq_adjust hk, Color.adjust, Color.adjust, h, edit_checked,
      Hsl.toColor_checked]
  | none =>
    cases f with
    | tint => exact Color.mix_checked Color.white c (some amount)
    | shade => exact Color.mix_checked Color.black c (some amount)
    | _ => cases hk

theorem Color.greyscale_checked {c : Color Rat} (h : c.HasHsl) :
    (c.map exact).greyscale = c.greyscale.map exact :=
  Adjustment.desaturate.apply_checked (Dimension.ofNumber 100) h

end StyleFunctions
