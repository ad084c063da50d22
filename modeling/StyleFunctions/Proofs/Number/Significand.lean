import Mathlib
import StyleFunctions.Proofs.Number.Binary64

/-!
# Integers of 53 significant bits

An integer above `2 ^ 53` is a binary64 number if enough zero bits stand at its end.

* `IsShort.tmod` — the remainder of two such integers is such an integer again.
* `Binary64.isShort_towardZero` — integer parts of binary64 numbers are such integers.
* `Binary64.value?_ofInt_of_isShort` — within the range of 64-bit integers they are binary64 numbers
  without loss.
-/

namespace StyleFunctions

/-- An integer of at most 53 significant bits, whatever the number of zero bits behind them. -/
def IsShort (n : Int) : Prop := ∃ m : Int, ∃ k : Nat, |m| < 2 ^ 53 ∧ n = m * 2 ^ k

theorem isShort_of_abs_lt {n : Int} (h : |n| < 2 ^ 53) : IsShort n := ⟨n, 0, h, by simp⟩

theorem IsShort.neg {n : Int} (h : IsShort n) : IsShort (-n) := by
  obtain ⟨m, k, hm, rfl⟩ := h
  exact ⟨-m, k, by rwa [abs_neg], by ring⟩

theorem abs_tmod_lt (a : Int) {b : Int} (hb : b ≠ 0) : |a.tmod b| < |b| := by
  rw [Int.abs_eq_natAbs, Int.abs_eq_natAbs, Int.natAbs_tmod]
  exact_mod_cast Nat.mod_lt _ (Int.natAbs_pos.2 hb)

theorem abs_tmod_le (a b : Int) : |a.tmod b| ≤ |a| := by
  rw [Int.abs_eq_natAbs, Int.abs_eq_natAbs, Int.natAbs_tmod]
  exact_mod_cast Nat.mod_le _ _

/-- The remainder ends in as many zero bits as the two integers both do.  In front of them it has
no more bits than the divisor, if that is the one with fewer zero bits, and else no more than the
dividend. -/
theorem IsShort.tmod {a b : Int} (ha : IsShort a) (hb : IsShort b) : IsShort (a.tmod b) := by
  obtain ⟨m, i, hm, rfl⟩ := ha
  obtain ⟨n, j, hn, rfl⟩ := hb
  have hfactor (x y : Int) (k : Nat) : (x * 2 ^ k).tmod (y * 2 ^ k) = x.tmod y * 2 ^ k := by
    rw [mul_comm x, mul_comm y, Int.mul_tmod_mul_of_pos _ _ (by positivity), mul_comm]
  rcases le_total j i with hji | hij
  · obtain ⟨d, rfl⟩ := Nat.exists_eq_add_of_le hji
    have hsplit : m * 2 ^ (j + d) = m * 2 ^ d * 2 ^ j := by ring
    rcases eq_or_ne n 0 with rfl | hn₀
    · rw [zero_mul, Int.tmod_zero]
      exact ⟨m, j + d, hm, rfl⟩
    · rw [hsplit, hfactor]
      exact ⟨_, j, (abs_tmod_lt _ hn₀).trans hn, rfl⟩
  · obtain ⟨d, rfl⟩ := Nat.exists_eq_add_of_le hij
    have hsplit : n * 2 ^ (i + d) = n * 2 ^ d * 2 ^ i := by ring
    rw [hsplit, hfactor]
    exact ⟨_, i, (abs_tmod_le _ _).trans_lt hm, rfl⟩

namespace Binary64

theorem isMagnitude_of_isShort {n : Int} (h : IsShort n) (hn : |n| ≤ 2 ^ 63) :
    IsMagnitude |(n : Rat)| := by
  obtain ⟨m, k, hm, rfl⟩ := h
  rcases eq_or_ne m 0 with rfl | hm₀
  · simpa using isMagnitude_natCast (n := 0) (by omega)
  · have hk : k < 64 := by
      have hpow : (2 : Int) ^ k < 2 ^ 64 := by
        calc (2 : Int) ^ k ≤ |m| * 2 ^ k :=
              le_mul_of_one_le_left (by positivity) (Int.one_le_abs hm₀)
          _ = |m * 2 ^ k| := by rw [abs_mul, abs_of_pos (by positivity : (0 : Int) < 2 ^ k)]
          _ < 2 ^ 64 := hn.trans_lt (by norm_num)
      exact (pow_lt_pow_iff_right₀ one_lt_two).1 hpow
    have hu : m.natAbs < 2 ^ 53 := by
      rw [Int.abs_eq_natAbs] at hm
      exact_mod_cast hm
    have hgrid := isMagnitude_mul_zpow hu (e := k) (by omega) (by omega)
    have habs : |((m * 2 ^ k : Int) : Rat)| = (m.natAbs : Rat) * 2 ^ (k : Int) := by
      push_cast
      rw [abs_mul, abs_of_pos (by positivity : (0 : Rat) < 2 ^ k), Nat.cast_natAbs, Int.cast_abs,
        zpow_natCast]
    rwa [habs]

/-- An integer of the 64-bit range that is short is a binary64 number. -/
theorem value?_ofInt_of_isShort {n : Int} (h : IsShort n) (hn : |n| ≤ 2 ^ 63) :
    value? (Scalar.ofInt n) = some (n : Rat) :=
  value?_nearest (isMagnitude_of_isShort h hn) 0

/-- The number nearest to an integer of the 64-bit range. -/
theorem value?_ofInt_eq_round {n : Int} (hn : |n| ≤ 2 ^ 63) :
    value? (Scalar.ofInt n) = some (Grid.round n) := by
  have hbound : |(n : Rat)| < 2 ^ (1023 : Int) := by
    calc |(n : Rat)| ≤ 2 ^ (63 : Int) := by exact_mod_cast hn
      _ < 2 ^ (1023 : Int) := zpow_lt_zpow_right₀ one_lt_two (by norm_num)
  exact value?_nearest_round (bits_lt (abs_nonneg _) hbound) 0

/-- The integer part of a number has no more significant bits than the number. -/
theorem isShort_towardZero {x : Float} {q : Rat} (h : value? x = some q) :
    IsShort (Rounding.towardZero q) := by
  rcases lt_or_ge |q| (2 ^ 52) with hq | hq
  · refine isShort_of_abs_lt ?_
    have habs := Rounding.abs_towardZero_le q
    have hlt : |(Rounding.towardZero q : Rat)| < 2 ^ 53 := by linarith
    exact_mod_cast hlt
  · obtain ⟨u, k, hu, hint⟩ := (isMagnitude_of_value? h).exists_mul_pow hq
    have hshort : IsShort (u * 2 ^ k) := ⟨u, k, by rw [Nat.abs_cast]; exact_mod_cast hu, rfl⟩
    rcases abs_choice q with hsign | hsign
    · have hval : q = ((u * 2 ^ k : Int) : Rat) := by
        rw [← hsign, hint]
        push_cast
        rfl
      rw [hval, Rounding.towardZero_intCast]
      exact hshort
    · have hval : q = ((-(u * 2 ^ k) : Int) : Rat) := by
        push_cast at hint ⊢
        linarith
      rw [hval, Rounding.towardZero_intCast]
      exact hshort.neg

end Binary64

end StyleFunctions
