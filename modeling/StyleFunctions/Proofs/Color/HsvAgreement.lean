import Mathlib.Tactic
import StyleFunctions.Proofs.Color.Gamut
import StyleFunctions.Proofs.Number.Rounding

/-!
# Value and lightness

A colour can be given by the level of its largest channel, or by the level halfway between its
largest and its smallest one.  The conversions have nothing in common but the hue circle: the one
looks its channels up in a table of sectors, the other reads a piecewise linear function at three
points.

* `Hsv.wholeDegrees_exact` — the hue is cut to whole degrees, and these to less than one turn.
* `Hsv.color_iff` — for a hue that is not negative the table gives the one colour with the
  expected largest and smallest channel and the expected hue.
* `Hsv.saturation_at_lightness` — the spread of its channels, as a saturation at its lightness.
* `Hsv.toColor_eq_hsl` — so both conversions give the same colour.
-/

namespace StyleFunctions

/-! ## Whole degrees -/

theorem Rounding.towardZero_intCast_div (n : Int) {m : Nat} (hm : 0 < m) :
    towardZero ((n : Rat) / m) = n.tdiv m := by
  have hm' : (0 : Rat) < m := by exact_mod_cast hm
  have hfloor (k : Int) : ((k : Rat) / m).floor = k / m := Rat.floor_intCast_div_natCast k m
  unfold towardZero
  rcases le_or_gt 0 n with hn | hn
  · have hquotient : (0 : Rat) ≤ n / m := div_nonneg (by exact_mod_cast hn) hm'.le
    rw [if_neg (not_lt.2 hquotient), hfloor, Int.tdiv_eq_ediv_of_nonneg hn]
  · have hquotient : (n : Rat) / m < 0 := div_neg_of_neg_of_pos (by exact_mod_cast hn) hm'
    have hopposite : -((n : Rat) / m) = ((-n : Int) : Rat) / m := by
      push_cast
      ring
    rw [if_pos hquotient, Rat.ceil_eq_neg_floor_neg, hopposite, hfloor, ← neg_inj, neg_neg,
      ← Int.neg_tdiv, Int.tdiv_eq_ediv_of_nonneg (by omega)]

/-- The remainder of an integer is that of the division towards zero. -/
theorem Scalar.remainder_intCast (n : Int) {m : Nat} (hm : 0 < m) :
    Scalar.remainder (n : Rat) m = (n.tmod m : Int) := by
  rw [remainder_exact, Rounding.towardZero_intCast_div n hm, Int.tmod_def]
  push_cast
  ring

theorem Hsv.wholeDegrees_exact (hue : Rat) :
    wholeDegrees hue = ((Rounding.towardZero hue).tmod 360 : Int) := by
  have hremainder := Scalar.remainder_intCast (Rounding.towardZero hue) (m := 360) (by norm_num)
  have hdef : wholeDegrees hue =
      Scalar.remainder (Rounding.towardZero hue : Rat) 360 / 360 * 360 := rfl
  rw [hdef, div_mul_cancel₀ _ (by norm_num)]
  exact_mod_cast hremainder

/-! ## The colour at a place -/

/-- The hue alone tells where a colour stands on the circle. -/
theorem HuePlace.color_eq_of_degrees {p q : HuePlace} (h : p.degrees = q.degrees)
    (low high alpha : Rat) : p.color low high alpha = q.color low high alpha := by
  rw [← Hsl.colorAt_degrees, ← Hsl.colorAt_degrees, h]

/-- A colour that is not grey stands at the place of its hue. -/
theorem Color.eq_color_of_hue {c : Color Rat} (h : c.lowest < c.highest) {p : HuePlace}
    (hue : c.toHsl.hue = p.degrees) :
    c = p.color (c.lowest / 255) (c.highest / 255) c.alpha := by
  obtain ⟨q, hq⟩ := exists_place h
  have hlevels : c.lowest / 255 < c.highest / 255 := div_lt_div_of_pos_right h (by norm_num)
  have hread : q.degrees = p.degrees := by
    rw [← hue, hq, q.toHsl_color hlevels]
  rw [← HuePlace.color_eq_of_degrees hread]
  exact hq

namespace Hsv

variable {hue s v : Rat}

/-- The place of a hue that is not negative, by its whole degrees. -/
theorem exists_place_whole (h : 0 ≤ hue) :
    ∃ p : HuePlace, wholeDegrees hue = p.degrees ∧
      p.degrees = (Rounding.towardZero hue % 360 : Int) := by
  obtain ⟨p, hp⟩ := exists_place h
  refine ⟨p, hp, ?_⟩
  rw [← hp, wholeDegrees_exact, Int.tmod_eq_emod_of_nonneg (Rounding.towardZero_nonneg h)]

/-- Of all colours, the one with the given hue, saturation and value has the value as its largest
channel, what the saturation leaves of it as its smallest, and the hue in whole degrees. -/
theorem color_iff (h : 0 ≤ hue) (hs : 0 < s) (hv : 0 < v) (c : Color Rat) (alpha : Rat) :
    c = Hsv.toColor ⟨hue, s, v, alpha⟩ ↔
      c.highest = 255 * v ∧ c.lowest = 255 * v * (1 - s) ∧ c.alpha = alpha ∧
        c.toHsl.hue = (Rounding.towardZero hue % 360 : Int) := by
  obtain ⟨p, hp, hdegrees⟩ := exists_place_whole h
  have hlevels : v * (1 - s) < v := by
    have hspread : 0 < v * s := mul_pos hv hs
    linarith
  constructor
  · rintro rfl
    rw [toColor_of_place hp, p.highest_color hlevels.le, p.lowest_color hlevels.le,
      p.toHsl_color hlevels]
    exact ⟨mul_comm v 255, by ring, rfl, hdegrees⟩
  · rintro ⟨hhigh, hlow, halpha, hhue⟩
    have hlt : c.lowest < c.highest := by
      rw [hlow, hhigh]
      linarith
    have hlow' : c.lowest / 255 = v * (1 - s) := by
      rw [hlow]
      ring
    have hhigh' : c.highest / 255 = v := by
      rw [hhigh]
      ring
    rw [toColor_of_place hp, Color.eq_color_of_hue hlt (hhue.trans hdegrees.symm), hlow', hhigh',
      halpha]

/-! ## The same colour by its lightness -/

/-- The spread of the channels, relative to the largest one at the lightness. -/
theorem saturation_at_lightness (v s l : Rat) (hl : l = v * (1 - s / 2)) :
    v * s / (1 - |2 * l - 1|) = Color.hslSaturation v (v * (1 - s)) l := by
  have hspread : v - v * (1 - s) = v * s := by ring
  rw [Color.hslSaturation_exact, hspread]
  by_cases hlight : 1 / 2 < l
  · have hroom : 1 - |2 * l - 1| = 2 - v - v * (1 - s) := by
      rw [abs_of_nonneg (by linarith), hl]
      ring
    rw [if_pos hlight, hroom]
  · have hroom : 1 - |2 * l - 1| = v + v * (1 - s) := by
      rw [abs_of_nonpos (by linarith), hl]
      ring
    rw [if_neg hlight, hroom]

/-- For a hue that is not negative, a saturation and a value above zero: the one colour with the
expected channels and hue, and the same colour as by hue, saturation and lightness. -/
theorem toColor_eq_hsl (h : 0 ≤ hue) (hs₀ : 0 < s) (hs₁ : s ≤ 1) (hv₀ : 0 < v) (hv₁ : v ≤ 1)
    (alpha : Rat) :
    (∀ c : Color Rat, c = Hsv.toColor ⟨hue, s, v, alpha⟩ ↔
      c.highest = 255 * v ∧ c.lowest = 255 * v * (1 - s) ∧ c.alpha = alpha ∧
        c.toHsl.hue = (Rounding.towardZero hue % 360 : Int)) ∧
    let l := v * (1 - s / 2)
    Hsv.toColor ⟨hue, s, v, alpha⟩ =
      Hsl.toColor ⟨Scalar.trunc hue, v * s / (1 - |2 * l - 1|), l, alpha⟩ := by
  refine ⟨fun c => color_iff h hs₀ hv₀ c alpha, ?_⟩
  intro l
  obtain ⟨p, hp, -⟩ := exists_place_whole h
  have hremainder : Scalar.remainder (Scalar.trunc hue) 360 = p.degrees := by
    have hdef : wholeDegrees hue = Scalar.remainder (Scalar.trunc hue) 360 / 360 * 360 := rfl
    rw [← hp, hdef, div_mul_cancel₀ _ (by norm_num)]
  have hbottom : 0 ≤ v * (1 - s) := mul_nonneg hv₀.le (sub_nonneg.2 hs₁)
  have hspread : 0 < v * s := mul_pos hv₀ hs₀
  have hmiddle : l = (v + v * (1 - s)) / 2 := by ring
  have hzero : v + v * (1 - s) ≠ 0 := by linarith
  have htwo : v + v * (1 - s) ≠ 2 := by linarith
  rw [toColor_of_place hp, Hsl.toColor_of_place hremainder, saturation_at_lightness v s l rfl,
    hmiddle, Hsl.lowLevel_hslSaturation hzero htwo, Hsl.highLevel_hslSaturation hzero htwo]

/-- A hue past two turns with a fraction, in the sector where red rises and blue is largest. -/
theorem toColor_eq_hsl_violet :
    let hue : Rat := 987 + 3 / 4
    let violet : Color Rat := ⟨1479 / 10, 102, 204, 1 / 3⟩
    0 ≤ hue ∧ (0 : Rat) < 1 / 2 ∧ (1 / 2 : Rat) ≤ 1 ∧ (0 : Rat) < 4 / 5 ∧ (4 / 5 : Rat) ≤ 1 ∧
      violet = Hsv.toColor ⟨hue, 1 / 2, 4 / 5, 1 / 3⟩ ∧
      violet.highest = 255 * (4 / 5) ∧ violet.lowest = 255 * (4 / 5) * (1 - 1 / 2) ∧
      violet.toHsl.hue = 267 ∧
      Hsv.toColor ⟨hue, 1 / 2, 4 / 5, 1 / 3⟩ =
        Hsl.toColor ⟨Scalar.trunc hue, 4 / 5 * (1 / 2) / (1 - |2 * (4 / 5 * (1 - 1 / 2 / 2)) - 1|),
          4 / 5 * (1 - 1 / 2 / 2), 1 / 3⟩ := by
  intro hue violet
  have hhue : 0 ≤ hue := by norm_num [hue]
  have hcolor : violet = Hsv.toColor ⟨hue, 1 / 2, 4 / 5, 1 / 3⟩ := by decide +kernel
  have hwhole : ((Rounding.towardZero hue % 360 : Int) : Rat) = 267 := by decide +kernel
  obtain ⟨hiff, heq⟩ := toColor_eq_hsl hhue (s := 1 / 2) (v := 4 / 5) (by norm_num) (by norm_num)
    (by norm_num) (by norm_num) (1 / 3)
  obtain ⟨hhigh, hlow, -, hdegrees⟩ := (hiff violet).1 hcolor
  exact ⟨hhue, by norm_num, by norm_num, by norm_num, by norm_num, hcolor, hhigh, hlow,
    hdegrees.trans hwhole, heq⟩

end Hsv

end StyleFunctions
