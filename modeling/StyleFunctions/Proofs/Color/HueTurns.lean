import Mathlib.Tactic
import StyleFunctions.Proofs.Color.HslRoundTrip

/-!
# Whole turns of the hue

A hue is an angle: whole turns should not change a colour.  They do not, except in one case.  A
negative hue reaches the channel function as a point up to one turn back, and the offset of blue
takes it a third of a turn further, where the wrap by one turn no longer brings it onto the
circle.

* `Hsl.Overturned` — the negative hues between red and green, for which this happens;
* `Hsl.colorAt_add_one` and `Hsl.colorAt_overturned` — one turn changes nothing, or the blue
  channel of an overturned hue, which falls below the lowest level;
* `Hsl.toColor_add_turns` — the hues and turns for which the colour stays the same, and the hues
  for which all channels stay in range.
-/

namespace StyleFunctions

namespace Hsl

variable {low high t turn : Rat}

/-! ## One turn -/

/-- One turn changes nothing for a point at most one turn away. -/
theorem channelLevel_add_one (h₀ : -1 ≤ t) (h₁ : t ≤ 1) :
    channelLevel low high (t + 1) = channelLevel low high t := by
  rcases lt_or_ge t 0 with ht | ht
  · exact (channelLevel_of_neg h₀ ht).symm
  · rw [channelLevel_of_one_le (by linarith) (by linarith), add_sub_cancel_right]

/-- More than one turn back, the rise of the channel goes on downwards. -/
theorem channelLevel_of_lt (h : t < -1) :
    channelLevel low high t = low + (high - low) * (6 * (t + 1)) := by
  have hwrap : wrapTurn t = t + 1 := by rw [wrapTurn_exact, if_pos (by linarith)]
  rw [channelLevel_exact, hwrap, if_pos (by linarith)]
  ring

theorem colorAt_add_one (h₀ : -(2 / 3) ≤ turn) (h₁ : turn ≤ 2 / 3) (alpha : Rat) :
    colorAt (turn + 1) low high alpha = colorAt turn low high alpha := by
  rw [colorAt, colorAt, add_right_comm, add_sub_right_comm,
    channelLevel_add_one (by linarith) (by linarith),
    channelLevel_add_one (by linarith) (by linarith),
    channelLevel_add_one (by linarith) (by linarith)]

/-- The blue channel of an overturned hue lies below the lowest level. -/
theorem colorAt_overturned (h₀ : -1 < turn) (h₁ : turn < -(2 / 3)) (alpha : Rat) :
    colorAt turn low high alpha =
      { colorAt (turn + 1) low high alpha with
        blue := (low + (high - low) * (6 * turn + 4)) * 255 } := by
  simp only [colorAt]
  have hblue : channelLevel low high (turn - 1 / 3) = low + (high - low) * (6 * turn + 4) := by
    rw [channelLevel_of_lt (by linarith)]
    ring
  rw [add_right_comm, channelLevel_add_one (by linarith) (by linarith),
    channelLevel_add_one (by linarith) (by linarith), hblue]

/-- A turn later, blue is at the lowest level. -/
theorem blue_colorAt_add_one (h₀ : -1 < turn) (h₁ : turn < -(2 / 3)) (alpha : Rat) :
    (colorAt (turn + 1) low high alpha).blue = low * 255 := by
  simp only [colorAt]
  rw [channelLevel_of_neg (by linarith) (by linarith),
    channelLevel_low (by linarith) (by linarith)]

/-- For a point less than one turn back, one turn changes nothing unless the hue is overturned
and the levels differ. -/
theorem colorAt_add_one_eq_iff (h₀ : -1 < turn) (h₁ : turn < 0) (alpha : Rat) :
    colorAt (turn + 1) low high alpha = colorAt turn low high alpha ↔
      low = high ∨ ¬ turn < -(2 / 3) := by
  rcases lt_or_ge turn (-(2 / 3)) with hturn | hturn
  · have hshift : 6 * turn + 4 ≠ 0 := by linarith
    rw [colorAt_overturned h₀ hturn]
    constructor
    · intro heq
      have hblue := congrArg Color.blue heq
      rw [blue_colorAt_add_one h₀ hturn] at hblue
      have hzero : (high - low) * (6 * turn + 4) = 0 := by linarith
      exact Or.inl (sub_eq_zero.1 ((mul_eq_zero.1 hzero).resolve_right hshift)).symm
    · rintro (rfl | hnot)
      · rw [sub_self, zero_mul, add_zero, ← blue_colorAt_add_one h₀ hturn alpha]
      · exact absurd hturn hnot
  · exact iff_of_true (colorAt_add_one hturn (by linarith) alpha) (Or.inr (not_lt.2 hturn))

/-! ## Overturned hues -/

/-- A negative hue whose angle lies between red and green. -/
def Overturned (hue : Rat) : Prop := hue < 0 ∧ ∃ n : Int, 0 < hue + 360 * n ∧ hue + 360 * n < 120

theorem remainder_add_turns (hue : Rat) (k : Int) :
    Scalar.remainder (hue + 360 * k) 360 = Scalar.remainder hue 360 ∨
      Scalar.remainder (hue + 360 * k) 360 = Scalar.remainder hue 360 + 360 ∨
      Scalar.remainder (hue + 360 * k) 360 = Scalar.remainder hue 360 - 360 := by
  exact_mod_cast Scalar.remainder_add_mul (m := 360) (by norm_num) hue k

/-- The remainder of an overturned hue is more than two thirds of a turn back. -/
theorem overturned_iff (hue : Rat) : Overturned hue ↔ Scalar.remainder hue 360 < -240 := by
  have hlow : -(360 : Rat) < Scalar.remainder hue 360 := by
    exact_mod_cast Scalar.neg_lt_remainder (m := 360) (by norm_num) hue
  obtain ⟨m, hm⟩ := Scalar.exists_remainder_add hue 360
  push_cast at hm
  constructor
  · rintro ⟨hneg, n, h₀, h₁⟩
    have hnonpos := Scalar.remainder_nonpos (m := 360) (by norm_num) hneg
    -- the angle and the remainder are congruent, and so one turn apart
    have hpos : (0 : Rat) < (m + n : Int) := by
      push_cast
      linarith
    have hlt : ((m + n : Int) : Rat) < 2 := by
      push_cast
      linarith
    have hone : m + n = 1 := by
      have hpos' : 0 < m + n := by exact_mod_cast hpos
      have hlt' : m + n < 2 := by exact_mod_cast hlt
      omega
    have hone' : (m : Rat) + n = 1 := by exact_mod_cast hone
    linarith
  · intro h
    have hneg : hue < 0 := by
      by_contra hcon
      have := Scalar.remainder_nonneg (m := 360) (by norm_num) (not_lt.1 hcon)
      linarith
    refine ⟨hneg, 1 - m, ?_, ?_⟩ <;> push_cast <;> linarith

/-- Levels that do not differ belong to greys, black and white among them. -/
theorem lowLevel_eq_highLevel_iff (s l : Rat) :
    lowLevel s l = highLevel s l ↔ s = 0 ∨ l = 0 ∨ l = 1 := by
  rw [eq_comm, ← sub_eq_zero, highLevel_sub_lowLevel, mul_eq_zero]
  refine or_congr_right ?_
  split
  · rename_i hdark
    constructor
    · intro h
      exact Or.inl (by linarith)
    · rintro (rfl | rfl)
      · norm_num
      · norm_num at hdark
  · rename_i hlight
    constructor
    · intro h
      exact Or.inr (by linarith)
    · rintro (rfl | rfl)
      · norm_num at hlight
      · norm_num

/-- Two hues whose remainders are one turn apart have the same colour unless the one with the
negative remainder is overturned. -/
theorem toColor_eq_iff_of_remainder {x y : Rat}
    (hturn : Scalar.remainder y 360 = Scalar.remainder x 360 + 360) (s l alpha : Rat) :
    (Hsl.toColor ⟨y, s, l, alpha⟩ = Hsl.toColor ⟨x, s, l, alpha⟩ ↔
      (s = 0 ∨ l = 0 ∨ l = 1) ∨ ¬ Overturned x) ∧ ¬ Overturned y := by
  have hx : -(360 : Rat) < Scalar.remainder x 360 := by
    exact_mod_cast Scalar.neg_lt_remainder (m := 360) (by norm_num) x
  have hy : Scalar.remainder y 360 < (360 : Rat) := by
    exact_mod_cast Scalar.remainder_lt (m := 360) (by norm_num) y
  have hangle : Scalar.remainder y 360 / 360 = Scalar.remainder x 360 / 360 + 1 := by
    rw [hturn]
    ring
  have hover : Overturned x ↔ Scalar.remainder x 360 / 360 < -(2 / 3) := by
    rw [overturned_iff, div_lt_iff₀ (by norm_num)]
    norm_num
  constructor
  · rw [toColor_exact, toColor_exact, hangle,
      colorAt_add_one_eq_iff (by linarith) (by linarith), ← lowLevel_eq_highLevel_iff, hover]
  · rw [overturned_iff]
    linarith

/-! ## Channels in range -/

theorem levels_mem {s l : Rat} (hs₀ : 0 ≤ s) (hs₁ : s ≤ 1) (hl₀ : 0 ≤ l) (hl₁ : l ≤ 1) :
    0 ≤ lowLevel s l ∧ lowLevel s l ≤ highLevel s l ∧ highLevel s l ≤ 1 := by
  rw [lowLevel, highLevel_exact]
  split
  · refine ⟨?_, ?_, ?_⟩ <;> nlinarith
  · refine ⟨?_, ?_, ?_⟩ <;> nlinarith

/-- A hue that is not overturned leads to a place on the hue circle. -/
theorem exists_place_of_not_overturned {hue : Rat} (h : ¬ Overturned hue) (s l alpha : Rat) :
    ∃ p : HuePlace,
      Hsl.toColor ⟨hue, s, l, alpha⟩ = p.color (lowLevel s l) (highLevel s l) alpha := by
  have hlow : -240 ≤ Scalar.remainder hue 360 := not_lt.1 (mt (overturned_iff hue).2 h)
  have hhigh : Scalar.remainder hue 360 < (360 : Rat) := by
    exact_mod_cast Scalar.remainder_lt (m := 360) (by norm_num) hue
  rcases lt_or_ge (Scalar.remainder hue 360) 0 with hneg | hnonneg
  · obtain ⟨p, hp⟩ := HuePlace.exists_degrees (h := Scalar.remainder hue 360 + 360)
      (by linarith) (by linarith)
    have hangle : Scalar.remainder hue 360 / 360 + 1 = p.degrees / 360 := by
      rw [hp]
      ring
    refine ⟨p, ?_⟩
    rw [toColor_exact, ← colorAt_add_one (by linarith) (by linarith), hangle, colorAt_degrees]
  · obtain ⟨p, hp⟩ := HuePlace.exists_degrees hnonneg hhigh
    exact ⟨p, toColor_of_place hp.symm s l alpha⟩

theorem inRange_color (p : HuePlace) {low high : Rat} (hlow : 0 ≤ low) (hle : low ≤ high)
    (hhigh : high ≤ 1) (alpha : Rat) : (p.color low high alpha).InRange := by
  rw [Color.inRange_iff, p.lowest_color hle, p.highest_color hle]
  constructor <;> linarith

/-- The colour of an overturned hue: that of its angle, but for blue. -/
theorem toColor_overturned {hue : Rat} (h : Overturned hue) (s l alpha : Rat) :
    ∃ p : HuePlace, Hsl.toColor ⟨hue, s, l, alpha⟩ =
      { p.color (lowLevel s l) (highLevel s l) alpha with
        blue := (lowLevel s l +
          (highLevel s l - lowLevel s l) * ((Scalar.remainder hue 360 + 240) / 60)) * 255 } := by
  have hlow : -(360 : Rat) < Scalar.remainder hue 360 := by
    exact_mod_cast Scalar.neg_lt_remainder (m := 360) (by norm_num) hue
  have hhigh := (overturned_iff hue).1 h
  obtain ⟨p, hp⟩ := HuePlace.exists_degrees (h := Scalar.remainder hue 360 + 360) (by linarith)
    (by linarith)
  have hangle : Scalar.remainder hue 360 / 360 + 1 = p.degrees / 360 := by
    rw [hp]
    ring
  have hshift : 6 * (Scalar.remainder hue 360 / 360) + 4 =
      (Scalar.remainder hue 360 + 240) / 60 := by
    ring
  refine ⟨p, ?_⟩
  rw [toColor_exact, colorAt_overturned (by linarith) (by linarith), hangle, colorAt_degrees,
    hshift]

/-- For components in range, the channels of an overturned hue are in range as long as blue does
not fall below zero. -/
theorem inRange_toColor_iff (hue : Rat) {s l : Rat} (alpha : Rat) (hs₀ : 0 ≤ s) (hs₁ : s ≤ 1)
    (hl₀ : 0 ≤ l) (hl₁ : l ≤ 1) :
    (Hsl.toColor ⟨hue, s, l, alpha⟩).InRange ↔ ¬ Overturned hue ∨
      0 ≤ lowLevel s l +
        (highLevel s l - lowLevel s l) * ((Scalar.remainder hue 360 + 240) / 60) := by
  obtain ⟨hlow, hle, hhigh⟩ := levels_mem hs₀ hs₁ hl₀ hl₁
  by_cases hover : Overturned hue
  · obtain ⟨p, hp⟩ := toColor_overturned hover s l alpha
    obtain ⟨hred, hgreen, -⟩ := inRange_color p hlow hle hhigh alpha
    have hback : (highLevel s l - lowLevel s l) * ((Scalar.remainder hue 360 + 240) / 60) ≤ 0 := by
      refine mul_nonpos_of_nonneg_of_nonpos (by linarith) ?_
      linarith [(overturned_iff hue).1 hover]
    rw [hp, Color.InRange]
    constructor
    · rintro ⟨-, -, hblue, -⟩
      exact Or.inr (by linarith)
    · rintro (hnot | hblue)
      · exact absurd hover hnot
      · exact ⟨hred, hgreen, by linarith, by linarith⟩
  · obtain ⟨p, hp⟩ := exists_place_of_not_overturned hover s l alpha
    rw [hp]
    exact iff_of_true (inRange_color p hlow hle hhigh alpha) (Or.inl hover)

/-- Whole turns keep the colour exactly if it is grey, or if the hue is overturned before and
after them or neither; and exactly the overturned hues can lead out of the range of channels. -/
theorem toColor_add_turns (h s l alpha : Rat) (k : Int) :
    (Hsl.toColor ⟨h + 360 * k, s, l, alpha⟩ = Hsl.toColor ⟨h, s, l, alpha⟩ ↔
      (s = 0 ∨ l = 0 ∨ l = 1) ∨ (Overturned (h + 360 * k) ↔ Overturned h)) ∧
    (0 ≤ s ∧ s ≤ 1 ∧ 0 ≤ l ∧ l ≤ 1 →
      ((Hsl.toColor ⟨h, s, l, alpha⟩).InRange ↔ ¬ Overturned h ∨
        0 ≤ lowLevel s l +
          (highLevel s l - lowLevel s l) * ((Scalar.remainder h 360 + 240) / 60))) := by
  constructor
  · rcases remainder_add_turns h k with heq | hahead | hback
    · have hover : Overturned (h + 360 * k) ↔ Overturned h := by
        rw [overturned_iff, overturned_iff, heq]
      refine iff_of_true ?_ (Or.inr hover)
      rw [toColor_exact, toColor_exact, heq]
    · obtain ⟨hiff, hnot⟩ := toColor_eq_iff_of_remainder hahead s l alpha
      rw [hiff]
      exact or_congr_right (by simp [hnot])
    · have hahead : Scalar.remainder h 360 = Scalar.remainder (h + 360 * k) 360 + 360 := by
        linarith
      obtain ⟨hiff, hnot⟩ := toColor_eq_iff_of_remainder hahead s l alpha
      rw [eq_comm, hiff]
      exact or_congr_right (by simp [hnot])
  · rintro ⟨hs₀, hs₁, hl₀, hl₁⟩
    exact inRange_toColor_iff h alpha hs₀ hs₁ hl₀ hl₁

/-- At a hue of 30 degrees and one turn back, where the hue is overturned. -/
theorem toColor_add_turns_orange :
    ((0 : Rat) ≤ 1 ∧ (1 : Rat) ≤ 1 ∧ (0 : Rat) ≤ 1 / 2 ∧ (1 / 2 : Rat) ≤ 1) ∧
      (Hsl.toColor (⟨30 + 360 * (-1 : Int), 1, 1 / 2, 1⟩ : Hsl Rat) =
          Hsl.toColor ⟨30, 1, 1 / 2, 1⟩ ↔
        ((1 : Rat) = 0 ∨ (1 / 2 : Rat) = 0 ∨ (1 / 2 : Rat) = 1) ∨
          (Overturned (30 + 360 * (-1 : Int)) ↔ Overturned 30)) ∧
      ((Hsl.toColor ⟨30, 1, 1 / 2, 1⟩).InRange ↔ ¬ Overturned 30 ∨
        0 ≤ lowLevel 1 (1 / 2) + (highLevel 1 (1 / 2) - lowLevel 1 (1 / 2)) *
          ((Scalar.remainder (30 : Rat) 360 + 240) / 60)) :=
  have hrange : (0 : Rat) ≤ 1 ∧ (1 : Rat) ≤ 1 ∧ (0 : Rat) ≤ 1 / 2 ∧ (1 / 2 : Rat) ≤ 1 := by
    norm_num
  ⟨hrange, (toColor_add_turns 30 1 (1 / 2) 1 (-1)).1,
    (toColor_add_turns 30 1 (1 / 2) 1 (-1)).2 hrange⟩

/-- Yellow, one turn back: blue is as far below its range as red and green are above zero. -/
theorem toColor_yellow_turned_back :
    Hsl.toColor (⟨-300 + 360 * (1 : Int), 1, 1 / 2, 1⟩ : Hsl Rat) = ⟨255, 255, 0, 1⟩ ∧
      Hsl.toColor (⟨-300, 1, 1 / 2, 1⟩ : Hsl Rat) = ⟨255, 255, -255, 1⟩ := by
  decide +kernel

end Hsl

end StyleFunctions
