import Mathlib.Data.Rat.Floor
import Mathlib.Tactic
import StyleFunctions.Number.Exact

/-!
# The exact reading of the formulas

Over the rationals the operations of a style sheet are those of ordinary arithmetic.

* `Scalar.max_exact`, `Scalar.min_exact`, `Scalar.abs_exact` and `Scalar.clampUnit_exact` turn
  them into the lattice operations of the rationals.
* `Rounding.towardZero` is less than one away from the number it rounds, on the side of zero.
* The remainder by `m` lies strictly between `-m` and `m` and has the sign of the dividend;
  dividends that differ by a multiple of `m` leave remainders that are equal or differ by one
  `m` (`Scalar.remainder_add_mul`).
-/

namespace StyleFunctions

/-! ## Order -/

namespace Scalar

@[simp] theorem isNaN_exact (x : Rat) : Scalar.isNaN x = false := by
  change (!(x == x)) = false
  simp

@[simp] theorem max_exact (x y : Rat) : Scalar.max x y = x ⊔ y := by
  rw [Scalar.max, isNaN_exact, Bool.or_false]
  change (if decide (x < y) = true then y else x) = x ⊔ y
  simp only [decide_eq_true_eq]
  split
  · rename_i h
    exact (max_eq_right h.le).symm
  · rename_i h
    exact (max_eq_left (not_lt.1 h)).symm

@[simp] theorem min_exact (x y : Rat) : Scalar.min x y = x ⊓ y := by
  rw [Scalar.min, isNaN_exact, Bool.or_false]
  change (if decide (y < x) = true then y else x) = x ⊓ y
  simp only [decide_eq_true_eq]
  split
  · rename_i h
    exact (min_eq_right h.le).symm
  · rename_i h
    exact (min_eq_left (not_lt.1 h)).symm

theorem abs_exact (x : Rat) : Scalar.abs x = |x| := by
  change (if x < 0 then -x else x) = |x|
  split
  · rename_i h
    exact (abs_of_neg h).symm
  · rename_i h
    exact (abs_of_nonneg (not_lt.1 h)).symm

theorem clampUnit_exact (x : Rat) : Scalar.clampUnit x = (x ⊔ 0) ⊓ 1 := by
  rw [Scalar.clampUnit, min_exact, max_exact]

end Scalar

/-! ## The integer part -/

namespace Rounding

theorem towardZero_le {q : Rat} (h : 0 ≤ q) : (towardZero q : Rat) ≤ q := by
  rw [towardZero, if_neg (not_lt.2 h)]
  exact Rat.floor_le q

theorem lt_towardZero_add_one {q : Rat} (h : 0 ≤ q) : q < towardZero q + 1 := by
  rw [towardZero, if_neg (not_lt.2 h)]
  exact_mod_cast Rat.lt_floor_add_one q

theorem le_towardZero {q : Rat} (h : q < 0) : q ≤ towardZero q := by
  rw [towardZero, if_pos h]
  exact Rat.le_ceil

theorem towardZero_lt_add_one {q : Rat} (h : q < 0) : (towardZero q : Rat) < q + 1 := by
  rw [towardZero, if_pos h]
  exact Rat.ceil_lt

theorem towardZero_nonneg {q : Rat} (h : 0 ≤ q) : 0 ≤ towardZero q := by
  rw [towardZero, if_neg (not_lt.2 h)]
  exact Rat.le_floor_iff.2 (by exact_mod_cast h)

theorem towardZero_nonpos {q : Rat} (h : q < 0) : towardZero q ≤ 0 := by
  rw [towardZero, if_pos h]
  exact Rat.ceil_le_iff.2 (by exact_mod_cast h.le)

/-- The integer part is not larger in size. -/
theorem abs_towardZero_le (q : Rat) : |(towardZero q : Rat)| ≤ |q| := by
  rcases le_or_gt 0 q with h | h
  · have hnonneg : (0 : Rat) ≤ towardZero q := by exact_mod_cast towardZero_nonneg h
    rw [abs_of_nonneg hnonneg, abs_of_nonneg h]
    exact towardZero_le h
  · have hnonpos : (towardZero q : Rat) ≤ 0 := by exact_mod_cast towardZero_nonpos h
    rw [abs_of_nonpos hnonpos, abs_of_neg h]
    exact neg_le_neg (le_towardZero h)

/-- Less than one in size, a number has no integer part. -/
theorem towardZero_eq_zero {q : Rat} (h : |q| < 1) : towardZero q = 0 := by
  obtain ⟨hlow, hhigh⟩ := abs_lt.1 h
  rcases le_or_gt 0 q with hq | hq
  · have hle : (towardZero q : Rat) < 1 := lt_of_le_of_lt (towardZero_le hq) hhigh
    have hnonneg := towardZero_nonneg hq
    have : towardZero q < 1 := by exact_mod_cast hle
    omega
  · have hlt : (-1 : Rat) < towardZero q := lt_of_lt_of_le hlow (le_towardZero hq)
    have hnonpos := towardZero_nonpos hq
    have : -1 < towardZero q := by exact_mod_cast hlt
    omega

theorem towardZero_eq_natCast {q : Rat} {n : Nat} (h₀ : (n : Rat) ≤ q) (h₁ : q < n + 1) :
    towardZero q = n := by
  have hnonneg : 0 ≤ q := (Nat.cast_nonneg n).trans h₀
  have hle := towardZero_le hnonneg
  have hlt := lt_towardZero_add_one hnonneg
  have hupper : (towardZero q : Rat) < ((n + 1 : Int) : Rat) := by
    push_cast
    linarith
  have hlower : ((n : Int) : Rat) < ((towardZero q + 1 : Int) : Rat) := by
    push_cast
    linarith
  have hupper' : towardZero q < n + 1 := by exact_mod_cast hupper
  have hlower' : (n : Int) < towardZero q + 1 := by exact_mod_cast hlower
  omega

end Rounding

/-! ## The remainder -/

namespace Scalar

variable {m : Nat}

theorem remainder_exact (x : Rat) (m : Nat) :
    Scalar.remainder x m = x - m * Rounding.towardZero (x / m) := rfl

/-- The quotient and the remainder make up the dividend. -/
theorem exists_remainder_add (x : Rat) (m : Nat) :
    ∃ n : Int, x = Scalar.remainder x m + m * n := by
  refine ⟨Rounding.towardZero (x / m), ?_⟩
  rw [remainder_exact]
  ring

theorem remainder_nonneg (hm : 0 < m) {x : Rat} (hx : 0 ≤ x) : 0 ≤ Scalar.remainder x m := by
  have hm' : (0 : Rat) < m := by exact_mod_cast hm
  have h := Rounding.towardZero_le (div_nonneg hx hm'.le)
  rw [le_div_iff₀ hm'] at h
  rw [remainder_exact]
  linarith

theorem remainder_lt (hm : 0 < m) (x : Rat) : Scalar.remainder x m < m := by
  have hm' : (0 : Rat) < m := by exact_mod_cast hm
  rw [remainder_exact]
  rcases le_or_gt 0 x with hx | hx
  · have h := Rounding.lt_towardZero_add_one (div_nonneg hx hm'.le)
    rw [div_lt_iff₀ hm'] at h
    linarith
  · have h := Rounding.le_towardZero (div_neg_of_neg_of_pos hx hm')
    rw [div_le_iff₀ hm'] at h
    linarith

theorem remainder_nonpos (hm : 0 < m) {x : Rat} (hx : x < 0) : Scalar.remainder x m ≤ 0 := by
  have hm' : (0 : Rat) < m := by exact_mod_cast hm
  have h := Rounding.le_towardZero (div_neg_of_neg_of_pos hx hm')
  rw [div_le_iff₀ hm'] at h
  rw [remainder_exact]
  linarith

theorem neg_lt_remainder (hm : 0 < m) (x : Rat) : -(m : Rat) < Scalar.remainder x m := by
  have hm' : (0 : Rat) < m := by exact_mod_cast hm
  rcases le_or_gt 0 x with hx | hx
  · have h := remainder_nonneg hm hx
    linarith
  · have h := Rounding.towardZero_lt_add_one (div_neg_of_neg_of_pos hx hm')
    rw [← sub_lt_iff_lt_add, lt_div_iff₀ hm'] at h
    rw [remainder_exact]
    linarith

/-- A number below the divisor in size is its own remainder. -/
theorem remainder_eq_self {x : Rat} (h : |x| < m) : Scalar.remainder x m = x := by
  have hm : (0 : Rat) < m := lt_of_le_of_lt (abs_nonneg x) h
  have hq : |x / m| < 1 := by
    rw [abs_div, abs_of_pos hm]
    exact (div_lt_one hm).2 h
  rw [remainder_exact, Rounding.towardZero_eq_zero hq]
  simp

/-- Whole multiples of the divisor change a remainder by one divisor at most. -/
theorem remainder_add_mul (hm : 0 < m) (x : Rat) (k : Int) :
    Scalar.remainder (x + m * k) m = Scalar.remainder x m ∨
      Scalar.remainder (x + m * k) m = Scalar.remainder x m + m ∨
      Scalar.remainder (x + m * k) m = Scalar.remainder x m - m := by
  have hm' : (0 : Rat) < m := by exact_mod_cast hm
  obtain ⟨a, ha⟩ := exists_remainder_add x m
  obtain ⟨b, hb⟩ := exists_remainder_add (x + m * k) m
  -- the remainders differ by `j` divisors, and are less than two apart
  obtain ⟨j, hj⟩ : ∃ j : Int, j = a + k - b := ⟨_, rfl⟩
  have hdiff : Scalar.remainder (x + m * k) m = Scalar.remainder x m + m * j := by
    rw [hj]
    push_cast
    linarith
  have h₁ := remainder_lt hm x
  have h₂ := neg_lt_remainder hm x
  have h₃ := remainder_lt hm (x + m * k)
  have h₄ := neg_lt_remainder hm (x + m * k)
  have hlow : (-2 : Rat) < j := by
    by_contra hcon
    have : (m : Rat) * j ≤ m * (-2) := mul_le_mul_of_nonneg_left (not_lt.1 hcon) hm'.le
    linarith
  have hhigh : (j : Rat) < 2 := by
    by_contra hcon
    have : (m : Rat) * 2 ≤ m * j := mul_le_mul_of_nonneg_left (not_lt.1 hcon) hm'.le
    linarith
  have hlow' : -2 < j := by exact_mod_cast hlow
  have hhigh' : j < 2 := by exact_mod_cast hhigh
  rw [hdiff]
  obtain rfl | rfl | rfl : j = 0 ∨ j = 1 ∨ j = -1 := by omega
  · exact Or.inl (by simp)
  · exact Or.inr (Or.inl (by simp))
  · refine Or.inr (Or.inr ?_)
    push_cast
    ring

/-! ## Integers -/

theorem toInt64_natCast {n : Nat} (h : (n : Int) ≤ Rounding.maxInt64) :
    Scalar.toInt64 (n : Rat) = n := by
  have hdef : Scalar.toInt64 (n : Rat) =
      Rounding.saturate Rounding.minInt64 Rounding.maxInt64 (Rounding.towardZero n) := rfl
  have hmin : ¬ (n : Int) < Rounding.minInt64 := by
    rw [Rounding.minInt64]
    omega
  rw [hdef, Rounding.towardZero_eq_natCast le_rfl (lt_add_one _), Rounding.saturate,
    if_neg hmin, if_neg (not_lt.2 h)]

end Scalar

end StyleFunctions
