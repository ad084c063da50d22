import Mathlib.Tactic
import StyleFunctions.Number.Checked
import StyleFunctions.Proofs.Number.Exact

/-!
# Arithmetic that notices division by zero

Over numbers, the operations of `Checked` are those of the rationals, with one exception: a
quotient by zero is `undefined`, and an undefined dividend or divisor leaves the quotient
undefined.
-/

namespace StyleFunctions.Checked

variable {p q : Rat}

@[simp] theorem exact_add (p q : Rat) : exact p + exact q = exact (p + q) := rfl

@[simp] theorem exact_sub (p q : Rat) : exact p - exact q = exact (p - q) := rfl

@[simp] theorem exact_mul (p q : Rat) : exact p * exact q = exact (p * q) := rfl

theorem exact_div (p : Rat) (h : q ≠ 0) : exact p / exact q = exact (p / q) := by
  change ((quotient? p q).map exact).getD undefined = exact (p / q)
  rw [quotient?, if_neg h]
  rfl

/-- A divisor that is written as a numeral from two on is not zero. -/
@[simp] theorem exact_div_ofNat (p : Rat) (n : Nat) [n.AtLeastTwo] :
    exact p / exact ofNat(n) = exact (p / ofNat(n)) :=
  exact_div p (OfNat.ofNat_ne_zero n)

theorem exact_div_zero (p : Rat) : exact p / exact 0 = undefined := rfl

/-- A quotient is a number exactly when its divisor is not zero. -/
theorem exact_div_eq_iff : exact p / exact q = exact (p / q) ↔ q ≠ 0 := by
  refine ⟨?_, exact_div p⟩
  rintro h rfl
  rw [exact_div_zero] at h
  exact Checked.noConfusion h

@[simp] theorem exact_lt : exact p < exact q ↔ p < q := by
  change decide (p < q) = true ↔ p < q
  exact decide_eq_true_iff

@[simp] theorem exact_le : exact p ≤ exact q ↔ p ≤ q := by
  change decide (p ≤ q) = true ↔ p ≤ q
  exact decide_eq_true_iff

@[simp] theorem exact_beq (p q : Rat) : (exact p == exact q) = decide (p = q) := by
  change decide (exact p = exact q) = decide (p = q)
  simp

theorem isNaN_exact (p : Rat) : Scalar.isNaN (exact p) = false := by
  rw [Scalar.isNaN, exact_beq]
  simp

@[simp] theorem max_exact (p q : Rat) : Scalar.max (exact p) (exact q) = exact (p ⊔ q) := by
  rw [Scalar.max, isNaN_exact, Bool.or_false]
  rcases lt_or_ge p q with h | h
  · simp [h, h.le]
  · simp [not_lt.2 h, h]

@[simp] theorem min_exact (p q : Rat) : Scalar.min (exact p) (exact q) = exact (p ⊓ q) := by
  rw [Scalar.min, isNaN_exact, Bool.or_false]
  rcases lt_or_ge q p with h | h
  · simp [h, h.le]
  · simp [not_lt.2 h, h]

theorem clampUnit_exact (p : Rat) :
    Scalar.clampUnit (exact p) = exact (Scalar.clampUnit p) := by
  have hdef : Scalar.clampUnit (exact p) =
      Scalar.min (Scalar.max (exact p) (exact 0)) (exact 1) := rfl
  rw [hdef, max_exact, min_exact, Scalar.clampUnit_exact]

end StyleFunctions.Checked
