import Mathlib.Data.Nat.Log
import Mathlib.Data.Rat.Floor
import Mathlib.Order.Monotone.Odd
import Mathlib.Tactic
import StyleFunctions.Number.Rounding

/-!
# Integers near a rational number

* `Rounding.log2Floor_eq` and `Rounding.log10Floor_eq` — the integer part of a logarithm is the
  exponent of the power below a number, although bit lengths and digit counts leave two
  candidates for it.
* `Rounding.halfAway_intCast`, `Rounding.halfAway_neg`, `Rounding.halfAway_mono` and
  `Rounding.abs_halfAway_sub_le` — rounding keeps integers, signs and the order, and moves a
  number by a half at most.
* `Rounding.isNearestAway_halfAway` — what it says of the integer that it goes to.
* `Rounding.halfEven_neg`, `Rounding.le_halfEven` and `Rounding.halfEven_le` — the same of the
  rounding whose halves go to the even neighbour, which stays between the integers around.
* `Rounding.saturate_eq_self` and `Rounding.saturate_mem` — an integer is drawn into a range, and
  stays if it lies there.
-/

namespace StyleFunctions.Rounding

/-! ## Logarithms -/

theorem eq_num_div_den {q : Rat} (h : 0 < q) : q = q.num.natAbs / q.den := by
  have hnum : ((q.num.natAbs : Nat) : Rat) = (q.num : Rat) := by
    rw [← Int.cast_natCast, Int.natAbs_of_nonneg (Rat.num_nonneg.2 h.le)]
  rw [hnum, Rat.num_div_den]

section Base

variable {b : Nat}

theorem zpow_log_le {n : Nat} (h : n ≠ 0) : (b : Rat) ^ (Nat.log b n : Int) ≤ n := by
  exact_mod_cast Nat.pow_log_le_self b h

theorem lt_zpow_log (hb : 1 < b) (n : Nat) : (n : Rat) < (b : Rat) ^ ((Nat.log b n : Int) + 1) := by
  exact_mod_cast Nat.lt_pow_succ_log_self hb n

/-- The logarithms of numerator and denominator enclose a number. -/
theorem zpow_sub_lt_and_lt (hb : 1 < b) {q : Rat} (h : 0 < q) :
    (b : Rat) ^ ((Nat.log b q.num.natAbs : Int) - Nat.log b q.den - 1) < q ∧
      q < (b : Rat) ^ ((Nat.log b q.num.natAbs : Int) - Nat.log b q.den + 1) := by
  have hb₀ : (0 : Rat) < b := by exact_mod_cast zero_lt_one.trans hb
  have hnum : q.num.natAbs ≠ 0 := by simpa using h.ne'
  have hden : (0 : Rat) < q.den := by exact_mod_cast q.den_pos
  constructor
  · calc (b : Rat) ^ ((Nat.log b q.num.natAbs : Int) - Nat.log b q.den - 1)
        = (b : Rat) ^ (Nat.log b q.num.natAbs : Int) / b ^ ((Nat.log b q.den : Int) + 1) := by
          rw [← zpow_sub₀ hb₀.ne', sub_sub]
      _ < (b : Rat) ^ (Nat.log b q.num.natAbs : Int) / q.den :=
          div_lt_div_of_pos_left (by positivity) hden (lt_zpow_log hb _)
      _ ≤ q.num.natAbs / q.den := div_le_div_of_nonneg_right (zpow_log_le hnum) hden.le
      _ = q := (eq_num_div_den h).symm
  · calc q = q.num.natAbs / q.den := eq_num_div_den h
      _ ≤ q.num.natAbs / (b : Rat) ^ (Nat.log b q.den : Int) :=
          div_le_div_of_nonneg_left (by positivity) (by positivity) (zpow_log_le q.den_nz)
      _ < (b : Rat) ^ ((Nat.log b q.num.natAbs : Int) + 1) / b ^ (Nat.log b q.den : Int) :=
          div_lt_div_of_pos_right (lt_zpow_log hb _) (by positivity)
      _ = (b : Rat) ^ ((Nat.log b q.num.natAbs : Int) - Nat.log b q.den + 1) := by
          rw [← zpow_sub₀ hb₀.ne', add_sub_right_comm]

/-- Of the two candidates for the integer part of a logarithm, the test picks the right one. -/
theorem ite_log_sub_log_eq (hb : 1 < b) {q : Rat} {n : Int} (hlow : (b : Rat) ^ n ≤ q)
    (hhigh : q < (b : Rat) ^ (n + 1)) :
    (if (b : Rat) ^ ((Nat.log b q.num.natAbs : Int) - Nat.log b q.den) ≤ q
      then (Nat.log b q.num.natAbs : Int) - Nat.log b q.den
      else (Nat.log b q.num.natAbs : Int) - Nat.log b q.den - 1) = n := by
  have hb₀ : (0 : Rat) < b := by exact_mod_cast zero_lt_one.trans hb
  have hexponent {i j : Int} (h : (b : Rat) ^ i < b ^ j) : i < j :=
    (zpow_lt_zpow_iff_right₀ (by exact_mod_cast hb)).1 h
  obtain ⟨hbelow, habove⟩ := zpow_sub_lt_and_lt hb (lt_of_lt_of_le (by positivity) hlow)
  have hle := hexponent (hbelow.trans hhigh)
  have hge := hexponent (hlow.trans_lt habove)
  split
  · rename_i hfirst
    have hlt := hexponent (hfirst.trans_lt hhigh)
    omega
  · rename_i hfirst
    have hlt := hexponent (hlow.trans_lt (not_le.1 hfirst))
    omega

end Base

/-- The exponent of the power of two below a number. -/
theorem log2Floor_eq {q : Rat} {n : Int} (hlow : (2 : Rat) ^ n ≤ q) (hhigh : q < 2 ^ (n + 1)) :
    log2Floor q = n := by
  rw [log2Floor, Nat.log2_eq_log_two, Nat.log2_eq_log_two]
  exact_mod_cast ite_log_sub_log_eq (b := 2) one_lt_two hlow hhigh

theorem length_toDigits {n : Nat} (h : n ≠ 0) : (Nat.toDigits 10 n).length = Nat.log 10 n + 1 := by
  have hle {k : Nat} (hk : 0 < k) : (Nat.toDigits 10 n).length ≤ k ↔ n < 10 ^ k :=
    Nat.length_toDigits_le_iff (by omega) hk
  refine le_antisymm ((hle (by omega)).2 (Nat.lt_pow_succ_log_self (by omega) n)) ?_
  by_contra hshort
  rcases Nat.eq_zero_or_pos (Nat.log 10 n) with hlog | hlog
  · have hpos : 0 < (Nat.toDigits 10 n).length := Nat.length_toDigits_pos
    omega
  · have hlt := (hle hlog).1 (by omega)
    exact hlt.not_ge (Nat.pow_log_le_self 10 h)

/-- The exponent of the power of ten below a number. -/
theorem log10Floor_eq {q : Rat} {n : Int} (hlow : (10 : Rat) ^ n ≤ q) (hhigh : q < 10 ^ (n + 1)) :
    log10Floor q = n := by
  have hq : 0 < q := lt_of_lt_of_le (by positivity) hlow
  have hdigits : (((Nat.toDigits 10 q.num.natAbs).length : Nat) : Int) -
      ((Nat.toDigits 10 q.den).length : Nat) =
        (Nat.log 10 q.num.natAbs : Int) - Nat.log 10 q.den := by
    rw [length_toDigits (by simpa using hq.ne'), length_toDigits q.den_nz]
    push_cast
    ring
  simp only [log10Floor, hdigits]
  exact_mod_cast ite_log_sub_log_eq (b := 10) (by omega) hlow hhigh

/-! ## Rounding -/

theorem floor_eq {q : Rat} {n : Int} (hlow : n ≤ q) (hhigh : q < n + 1) : q.floor = n :=
  Int.floor_eq_iff.2 ⟨hlow, hhigh⟩

theorem halfEven_intCast (n : Int) : halfEven n = n := by
  simp [halfEven]

theorem floor_le_halfEven (q : Rat) : q.floor ≤ halfEven q := by
  simp only [halfEven]
  split_ifs <;> omega

/-- The even neighbour is one of the two integers around a number. -/
theorem le_halfEven {q : Rat} {n : Int} (h : n ≤ q) : n ≤ halfEven q :=
  (Rat.le_floor_iff.2 h).trans (floor_le_halfEven q)

theorem halfEven_neg (q : Rat) : halfEven (-q) = -halfEven q := by
  by_cases hq : ∃ n : Int, q = n
  · obtain ⟨n, rfl⟩ := hq
    rw [← Int.cast_neg, halfEven_intCast, halfEven_intCast]
  · have hne : (q.floor : Rat) ≠ q := fun h => hq ⟨q.floor, h.symm⟩
    have hle := lt_of_le_of_ne (Rat.floor_le q) hne
    have hlt := Rat.lt_floor_add_one q
    have hfloor : (-q).floor = -q.floor - 1 := by
      refine floor_eq ?_ ?_ <;> push_cast at * <;> linarith
    simp only [halfEven, hfloor]
    push_cast
    -- what lies above one neighbour lies below the other
    rcases lt_trichotomy (q - q.floor) (1 / 2) with h | h | h
    · rw [if_neg (by linarith), if_pos (by linarith), if_pos h]
      ring
    · rw [if_neg (by linarith), if_neg (by linarith), if_neg h.not_lt, if_neg h.not_gt]
      split_ifs <;> omega
    · rw [if_pos (by linarith), if_neg (by linarith), if_pos h]
      ring

theorem halfEven_le {q : Rat} {n : Int} (h : q ≤ n) : halfEven q ≤ n := by
  have hneg := le_halfEven (q := -q) (n := -n) (by push_cast; linarith)
  rw [halfEven_neg] at hneg
  omega

theorem halfAway_of_nonneg {q : Rat} (h : 0 ≤ q) : halfAway q = (q + 1 / 2).floor := by
  rw [halfAway, if_neg (not_lt.2 h)]

theorem halfAway_natCast (n : Nat) : halfAway n = n := by
  rw [halfAway_of_nonneg (Nat.cast_nonneg n)]
  refine floor_eq ?_ ?_ <;> push_cast <;> linarith

/-- The two halves go away from zero alike. -/
theorem halfAway_neg (q : Rat) : halfAway (-q) = -halfAway q := by
  rcases lt_trichotomy q 0 with h | rfl | h
  · rw [halfAway_of_nonneg (neg_pos.2 h).le, halfAway, if_pos h, neg_neg]
  · have hzero : halfAway 0 = 0 := by exact_mod_cast halfAway_natCast 0
    rw [neg_zero, hzero, neg_zero]
  · rw [halfAway_of_nonneg h.le, halfAway, if_pos (neg_neg_iff_pos.2 h), neg_neg]

theorem halfAway_intCast (n : Int) : halfAway n = n := by
  rcases Int.eq_nat_or_neg n with ⟨m, rfl | rfl⟩
  · exact_mod_cast halfAway_natCast m
  · rw [Int.cast_neg, halfAway_neg]
    exact congrArg Neg.neg (by exact_mod_cast halfAway_natCast m)

theorem halfAway_mono : Monotone halfAway := by
  refine monotone_of_odd_of_monotoneOn_nonneg halfAway_neg fun p hp q hq hpq => ?_
  rw [halfAway_of_nonneg hp, halfAway_of_nonneg hq]
  exact Rat.floor_monotone (by linarith)

/-- Rounding moves a number by a half at most. -/
theorem abs_halfAway_sub_le (q : Rat) : |(halfAway q : Rat) - q| ≤ 1 / 2 := by
  have hnonneg {r : Rat} (h : 0 ≤ r) : |(halfAway r : Rat) - r| ≤ 1 / 2 := by
    rw [halfAway_of_nonneg h, abs_le]
    have hle := Rat.floor_le (r + 1 / 2)
    have hlt := Rat.lt_floor_add_one (r + 1 / 2)
    push_cast at hlt
    constructor <;> linarith
  rcases le_total 0 q with h | h
  · exact hnonneg h
  · have hneg := hnonneg (neg_nonneg.2 h)
    rwa [halfAway_neg, Int.cast_neg, ← neg_sub', abs_neg] at hneg

/-- An integer nearest to a number; of two such integers the one that is further from zero. -/
structure IsNearestAway (q : Rat) (n : Int) : Prop where
  near : |(n : Rat) - q| ≤ 1 / 2
  away : |(n : Rat) - q| = 1 / 2 → |q| ≤ |(n : Rat)|

theorem isNearestAway_halfAway (q : Rat) : IsNearestAway q (halfAway q) := by
  refine ⟨abs_halfAway_sub_le q, ?_⟩
  have hnonneg {r : Rat} (h : 0 ≤ r) (htie : |(halfAway r : Rat) - r| = 1 / 2) :
      |r| ≤ |(halfAway r : Rat)| := by
    have hlt := Rat.lt_floor_add_one (r + 1 / 2)
    rw [← halfAway_of_nonneg h] at hlt
    push_cast at hlt
    rcases abs_eq (by norm_num) |>.1 htie with hup | hdown
    · rw [abs_of_nonneg h]
      exact le_abs.2 (Or.inl (by linarith))
    · linarith
  intro htie
  rcases le_total 0 q with h | h
  · exact hnonneg h htie
  · have hneg := hnonneg (neg_nonneg.2 h)
    rw [halfAway_neg, Int.cast_neg, ← neg_sub', abs_neg, abs_neg, abs_neg] at hneg
    exact hneg htie

/-- An integer is its own integer part. -/
theorem towardZero_intCast (n : Int) : towardZero n = n := by
  rw [towardZero]
  split
  · exact Rat.ceil_intCast n
  · exact Rat.floor_intCast n

/-! ## Ranges -/

theorem saturate_mem {lo hi : Int} (h : lo ≤ hi) (n : Int) :
    lo ≤ saturate lo hi n ∧ saturate lo hi n ≤ hi := by
  rw [saturate]
  split_ifs <;> omega

theorem saturate_eq_self {lo hi n : Int} (hlo : lo ≤ n) (hhi : n ≤ hi) :
    saturate lo hi n = n := by
  rw [saturate, if_neg (not_lt.2 hlo), if_neg (not_lt.2 hhi)]

end StyleFunctions.Rounding
