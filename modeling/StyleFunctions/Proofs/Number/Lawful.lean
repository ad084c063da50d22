import Mathlib.Tactic
import StyleFunctions.Number.Exact
import StyleFunctions.Proofs.Number.Rounding

/-!
# Scalars whose integers are exact

What texts of numbers rely on: a scalar is rounded to an integer without a further error, and
the scalar nearest to a small integer is that integer.  Exact numbers have these properties
(here) and so have binary64 numbers (`Binary64.instLawfulScalar`).
-/

namespace StyleFunctions

/-- Scalars that are integers where their exact values are. -/
class LawfulScalar (α : Type) [Scalar α] : Prop where
  /-- Nothing is both at least and below the same scalar. -/
  not_lt_of_le {x y : α} : x ≤ y → ¬ y < x
  /-- One is a number. -/
  one_le_one : (1 : α) ≤ 1
  /-- Integers of at most 53 bits are scalars. -/
  value?_ofInt {n : Int} : |n| < 2 ^ 53 → Scalar.value? (Scalar.ofInt n : α) = some (n : Rat)
  /-- A scalar with an exact value is rounded to the integer to which its value is rounded. -/
  value?_round {x : α} {q : Rat} :
    Scalar.value? x = some q → Scalar.value? (Scalar.round x) = some (Rounding.halfAway q : Rat)

namespace Scalar

instance : LawfulScalar Rat where
  not_lt_of_le := not_lt_of_ge
  one_le_one := le_rfl
  value?_ofInt _ := rfl
  value?_round h := by
    cases h
    rfl

end Scalar

end StyleFunctions
