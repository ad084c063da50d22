import Mathlib
import StyleFunctions.Function.Math
import StyleFunctions.Proofs.Number.Significand

/-!
# Remainders of dimensions

`mod` casts two binary64 numbers to 64-bit integers and takes the remainder of those.

* `Arithmetic.modulo_outcome` — it is refused by zero, and also where the quotient of the lowest
  integer and minus one leaves the 64-bit range; all else gives the remainder, rounded to binary64
  only if the dividend was cast to the highest integer.
* `Arithmetic.modulo_exact` — for numbers of the 64-bit range the remainder is exact.
-/

namespace StyleFunctions

/-! ## Remainders of integers -/

/-- What remains of `a` when whole multiples of `b` are taken away. -/
structure IsRemainder (a b r : Int) : Prop where
  /-- What is taken away is a multiple. -/
  dvd : b ∣ a - r
  /-- Less than the divisor remains. -/
  small : |r| < |b|
  /-- The sign is that of the dividend. -/
  sign : r = 0 ∨ r.sign = a.sign

theorem isRemainder_tmod (a : Int) {b : Int} (hb : b ≠ 0) : IsRemainder a b (a.tmod b) := by
  have hpositive {c : Int} (hc : 0 < c) : c.tmod b = 0 ∨ (c.tmod b).sign = c.sign := by
    rcases (Int.tmod_nonneg b hc.le).eq_or_lt with h | h
    · exact Or.inl h.symm
    · exact Or.inr (by rw [Int.sign_eq_one_of_pos h, Int.sign_eq_one_of_pos hc])
  refine ⟨Int.dvd_self_sub_tmod, abs_tmod_lt a hb, ?_⟩
  rcases lt_trichotomy a 0 with ha | rfl | ha
  · have hneg := hpositive (neg_pos.2 ha)
    rwa [Int.neg_tmod, neg_eq_zero, Int.sign_neg, Int.sign_neg, neg_inj] at hneg
  · exact Or.inl (Int.zero_tmod b)
  · exact hpositive ha

theorem IsRemainder.nonneg {a b r : Int} (h : IsRemainder a b r) (ha : 0 ≤ a) : 0 ≤ r := by
  rcases h.sign with hr | hr
  · exact hr.ge
  · rw [← Int.sign_nonneg_iff, hr]
    exact Int.sign_nonneg_iff.2 ha

theorem IsRemainder.nonpos {a b r : Int} (h : IsRemainder a b r) (ha : a ≤ 0) : r ≤ 0 := by
  rcases h.sign with hr | hr
  · exact hr.le
  · rw [← Int.sign_nonpos_iff, hr]
    exact Int.sign_nonpos_iff.2 ha

/-- There is one remainder only. -/
theorem IsRemainder.eq {a b r s : Int} (hr : IsRemainder a b r) (hs : IsRemainder a b s) :
    r = s := by
  have hdvd : b ∣ r - s := by
    have h := dvd_sub hs.dvd hr.dvd
    rwa [sub_sub_sub_cancel_left] at h
  have habs : |r - s| < |b| := by
    obtain ⟨hr₁, hr₂⟩ := abs_lt.1 hr.small
    obtain ⟨hs₁, hs₂⟩ := abs_lt.1 hs.small
    rcases le_total 0 a with ha | ha
    · have hr₀ := hr.nonneg ha
      have hs₀ := hs.nonneg ha
      exact abs_lt.2 ⟨by linarith, by linarith⟩
    · have hr₀ := hr.nonpos ha
      have hs₀ := hs.nonpos ha
      exact abs_lt.2 ⟨by linarith, by linarith⟩
  exact sub_eq_zero.1 (Int.eq_zero_of_abs_lt_dvd ((abs_dvd b _).2 hdvd) habs)

/-- A number smaller than the divisor is what remains of it. -/
theorem tmod_eq_self_of_abs_lt {a b : Int} (h : |a| < |b|) : a.tmod b = a := by
  have hb : b ≠ 0 := abs_pos.1 ((abs_nonneg a).trans_lt h)
  exact (isRemainder_tmod a hb).eq ⟨by simp, h, Or.inr rfl⟩

/-! ## Casts to 64-bit integers -/

namespace Scalar

variable {α : Type} [Scalar α]

theorem toInt64_mem (x : α) :
    Rounding.minInt64 ≤ Scalar.toInt64 x ∧ Scalar.toInt64 x ≤ Rounding.maxInt64 := by
  have hrange : Rounding.minInt64 ≤ Rounding.maxInt64 := by decide
  rw [toInt64, toIntIn]
  split
  · exact Rounding.saturate_mem hrange _
  · split_ifs
    · decide
    · exact ⟨le_rfl, hrange⟩
    · exact ⟨hrange, le_rfl⟩

theorem abs_toInt64_le (x : α) : |Scalar.toInt64 x| ≤ 2 ^ 63 := by
  obtain ⟨hlow, hhigh⟩ := toInt64_mem x
  rw [Rounding.minInt64] at hlow
  rw [Rounding.maxInt64] at hhigh
  exact abs_le.2 ⟨by omega, by omega⟩

/-- No number of the 64-bit range is changed by the cast, but for its fraction. -/
theorem toInt64_eq_towardZero {x : α} {q : Rat} (h : Scalar.value? x = some q)
    (hq : |q| < 2 ^ 63) : Scalar.toInt64 x = Rounding.towardZero q := by
  have hlt : |Rounding.towardZero q| < 2 ^ 63 := by
    exact_mod_cast (Rounding.abs_towardZero_le q).trans_lt hq
  obtain ⟨hlow, hhigh⟩ := abs_lt.1 hlt
  rw [toInt64, toIntIn, h]
  refine Rounding.saturate_eq_self ?_ ?_
  · rw [Rounding.minInt64]
    omega
  · rw [Rounding.maxInt64]
    omega

end Scalar

namespace Binary64

/-- Truncating before the cast changes nothing. -/
theorem toInt64_trunc (x : Float) : Scalar.toInt64 (Scalar.trunc x) = Scalar.toInt64 x := by
  cases h : value? x with
  | none =>
    have hvalue : Scalar.value? x = none := h
    have htrunc : Scalar.trunc x = x := by rw [Scalar.trunc, Scalar.roundBy, hvalue]
    rw [htrunc]
  | some q =>
    have hvalue : Scalar.value? x = some q := h
    have htrunc : Scalar.value? (Scalar.trunc x) = some (Rounding.towardZero q : Rat) :=
      value?_trunc h
    rw [Scalar.toInt64, Scalar.toIntIn, htrunc, Scalar.toInt64, Scalar.toIntIn, hvalue]
    simp only [Rounding.towardZero_intCast]

/-- An integer cast from a number has few significant bits, as the number has, unless it is the
highest one, to which numbers out of range are drawn. -/
theorem isShort_toInt64 {x : Float} (h : Scalar.toInt64 x ≠ Rounding.maxInt64) :
    IsShort (Scalar.toInt64 x) := by
  have hlowest : IsShort Rounding.minInt64 :=
    ⟨-1, 63, by norm_num, by norm_num [Rounding.minInt64]⟩
  cases hx : value? x with
  | none =>
    have hvalue : Scalar.value? x = none := hx
    simp only [Scalar.toInt64, Scalar.toIntIn, hvalue] at h ⊢
    split_ifs at h ⊢ with hnan hneg
    · exact isShort_of_abs_lt (by norm_num)
    · exact hlowest
    · exact absurd rfl h
  | some q =>
    have hvalue : Scalar.value? x = some q := hx
    have hshort := isShort_towardZero hx
    simp only [Scalar.toInt64, Scalar.toIntIn, hvalue, Rounding.saturate] at h ⊢
    split_ifs at h ⊢ with hlow hhigh
    · exact hlowest
    · exact absurd rfl h
    · exact hshort

/-- The remainder of two casts is short as well, unless the dividend is the highest integer. -/
theorem isShort_tmod_toInt64 {x y : Float} (hx : Scalar.toInt64 x ≠ Rounding.maxInt64) :
    IsShort ((Scalar.toInt64 x).tmod (Scalar.toInt64 y)) := by
  have hshort := isShort_toInt64 hx
  by_cases hy : Scalar.toInt64 y = Rounding.maxInt64
  · rw [hy]
    rcases lt_or_ge |Scalar.toInt64 x| |Rounding.maxInt64| with hlt | hge
    · rwa [tmod_eq_self_of_abs_lt hlt]
    · -- the two lowest integers alone are that large
      have hlow : Scalar.toInt64 x = Rounding.minInt64 ∨
          Scalar.toInt64 x = -Rounding.maxInt64 := by
        obtain ⟨hmin, hmax⟩ := Scalar.toInt64_mem x
        rw [abs_of_nonneg (by decide : 0 ≤ Rounding.maxInt64), le_abs] at hge
        simp only [Rounding.minInt64, Rounding.maxInt64] at *
        omega
      rcases hlow with h | h
      · rw [h]
        exact isShort_of_abs_lt (by decide)
      · rw [h]
        exact isShort_of_abs_lt (by decide)
  · exact hshort.tmod (isShort_toInt64 hy)

end Binary64

/-! ## The builtin -/

namespace Arithmetic

section Scalars

variable {α : Type} [Scalar α] {a b : Dimension α}

theorem modulo_eq_error (h : integer b.value = 0 ∨
    integer a.value = Rounding.minInt64 ∧ integer b.value = -1) :
    modulo a b = .error .moduloByZero := by
  have hnone : remainder? (integer a.value) (integer b.value) = none := by
    rw [remainder?, if_pos (by simpa using h)]
  rw [modulo, hnone]

theorem modulo_eq_ok (h : ¬ (integer b.value = 0 ∨
    integer a.value = Rounding.minInt64 ∧ integer b.value = -1)) :
    modulo a b =
      .ok (.dimension ⟨Scalar.ofInt ((integer a.value).tmod (integer b.value)), a.unit⟩) := by
  have hsome : remainder? (integer a.value) (integer b.value) =
      some ((integer a.value).tmod (integer b.value)) := by
    rw [remainder?, if_neg (by simpa using h)]
  rw [modulo, hsome]

end Scalars

theorem integer_eq_toInt64_trunc (x : Float) : integer x = Scalar.toInt64 (Scalar.trunc x) :=
  (Binary64.toInt64_trunc x).symm

/-- Two binary64 numbers are refused exactly if the second is cast to zero, or the first to the
lowest integer and the second to minus one.  All other pairs give a number in the unit of the
first: the remainder of the two integers, or the number nearest to it if the first was cast to the
highest integer. -/
theorem modulo_outcome (a b : Dimension Float) :
    let A := Scalar.toInt64 (Scalar.trunc a.value)
    let B := Scalar.toInt64 (Scalar.trunc b.value)
    (modulo a b = .error .moduloByZero ↔ B = 0 ∨ A = Rounding.minInt64 ∧ B = -1) ∧
    (¬ (B = 0 ∨ A = Rounding.minInt64 ∧ B = -1) →
      ∃ (r : Int) (x : Float), IsRemainder A B r ∧ modulo a b = .ok (.dimension ⟨x, a.unit⟩) ∧
        Scalar.value? x = some (Grid.round r) ∧
        (A ≠ Rounding.maxInt64 → Scalar.value? x = some (r : Rat))) := by
  dsimp only
  rw [← integer_eq_toInt64_trunc, ← integer_eq_toInt64_trunc]
  refine ⟨⟨fun herror => ?_, modulo_eq_error⟩, fun h => ?_⟩
  · by_contra h
    rw [modulo_eq_ok h] at herror
    cases herror
  · obtain ⟨hzero, -⟩ := not_or.1 h
    have hbound : |(integer a.value).tmod (integer b.value)| ≤ 2 ^ 63 :=
      (abs_tmod_le _ _).trans (Scalar.abs_toInt64_le a.value)
    exact ⟨_, _, isRemainder_tmod _ hzero, modulo_eq_ok h, Binary64.value?_ofInt_eq_round hbound,
      fun hmax =>
        Binary64.value?_ofInt_of_isShort (Binary64.isShort_tmod_toInt64 hmax) hbound⟩

/-- Infinity by ten: the highest integer leaves seven. -/
theorem modulo_outcome_infinity :
    let a : Dimension Float := ⟨Binary64.infinity, "px"⟩
    let b : Dimension Float := ⟨10, ""⟩
    ∃ x, modulo a b = .ok (.dimension ⟨x, "px"⟩) ∧ Scalar.value? x = some (7 : Rat) := by
  have hA : Scalar.toInt64 (Scalar.trunc Binary64.infinity) = Rounding.maxInt64 := by
    decide +kernel
  have hB : Scalar.toInt64 (Scalar.trunc (10 : Float)) = 10 := by decide +kernel
  obtain ⟨-, hok⟩ := modulo_outcome ⟨Binary64.infinity, "px"⟩ ⟨10, ""⟩
  rw [hA, hB] at hok
  obtain ⟨r, x, hr, hx, hvalue, -⟩ := hok (by decide)
  have hseven : r = 7 := hr.eq ⟨by decide, by decide, by decide⟩
  have hround : Grid.round ((7 : Int) : Rat) = 7 := by decide +kernel
  rw [hseven, hround] at hvalue
  exact ⟨x, hx, hvalue⟩

/-- Minus one divides the lowest integer, yet is refused as zero is. -/
theorem modulo_lowest_by_minus_one :
    let a : Dimension Float := ⟨-0x8000000000000000, "px"⟩
    let b : Dimension Float := ⟨-1, ""⟩
    Scalar.toInt64 (Scalar.trunc b.value) = -1 ∧
      IsRemainder (Scalar.toInt64 (Scalar.trunc a.value)) (-1) 0 ∧
      modulo a b = .error .moduloByZero := by
  have hA : Scalar.toInt64 (Scalar.trunc (-0x8000000000000000 : Float)) = Rounding.minInt64 := by
    decide +kernel
  have hB : Scalar.toInt64 (Scalar.trunc (-1 : Float)) = -1 := by decide +kernel
  refine ⟨hB, ?_, modulo_eq_error (Or.inr ⟨?_, ?_⟩)⟩
  · exact ⟨(neg_dvd).2 (one_dvd _), by decide, Or.inl rfl⟩
  · exact (integer_eq_toInt64_trunc _).trans hA
  · exact (integer_eq_toInt64_trunc _).trans hB

/-- Two numbers of the 64-bit range leave the remainder of their integer parts, unrounded even
if these have more than 53 bits. -/
theorem modulo_exact {a b : Dimension Float} {p q : Rat} (ha : Scalar.value? a.value = some p)
    (hb : Scalar.value? b.value = some q) (hp : |p| < 2 ^ 63) (hq : |q| < 2 ^ 63)
    (hzero : Rounding.towardZero q ≠ 0) :
    let A := Rounding.towardZero p
    let B := Rounding.towardZero q
    let R := A - B * A.tdiv B
    |R| < |B| ∧ (R = 0 ∨ R.sign = A.sign) ∧ IsShort R ∧
      ∃ x, modulo a b = .ok (.dimension ⟨x, a.unit⟩) ∧ Scalar.value? x = some (R : Rat) := by
  have hA : integer a.value = Rounding.towardZero p := Scalar.toInt64_eq_towardZero ha hp
  have hB : integer b.value = Rounding.towardZero q := Scalar.toInt64_eq_towardZero hb hq
  have hlt : |Rounding.towardZero p| < 2 ^ 63 := by
    exact_mod_cast (Rounding.abs_towardZero_le p).trans_lt hp
  have hallowed : ¬ (integer b.value = 0 ∨
      integer a.value = Rounding.minInt64 ∧ integer b.value = -1) := by
    rw [hA, hB, Rounding.minInt64]
    obtain ⟨hlow, -⟩ := abs_lt.1 hlt
    omega
  have hmodulo := modulo_eq_ok hallowed
  rw [hA, hB] at hmodulo
  have hshort := (Binary64.isShort_towardZero ha).tmod (Binary64.isShort_towardZero hb)
  have hremainder := isRemainder_tmod (Rounding.towardZero p) hzero
  dsimp only
  rw [← Int.tmod_def]
  exact ⟨hremainder.small, hremainder.sign, hshort, _, hmodulo,
    Binary64.value?_ofInt_of_isShort hshort ((abs_tmod_le _ _).trans hlt.le)⟩

/-- The remainder of `-(2 ^ 62 - 2 ^ 9)` by `2 ^ 60 + 2 ^ 8` is `-(2 ^ 60 - 1280)`. -/
theorem modulo_exact_large :
    let a : Dimension Float := ⟨-4611686018427387392, "em"⟩
    let b : Dimension Float := ⟨1152921504606847232, "px"⟩
    ∃ x, modulo a b = .ok (.dimension ⟨x, "em"⟩) ∧
      Scalar.value? x = some (-1152921504606845696 : Rat) := by
  have ha : Scalar.value? (-4611686018427387392 : Float) = some (-4611686018427387392) := by
    decide +kernel
  have hb : Scalar.value? (1152921504606847232 : Float) = some 1152921504606847232 := by
    decide +kernel
  have hp : Rounding.towardZero (-4611686018427387392) = -4611686018427387392 := by
    decide +kernel
  have hq : Rounding.towardZero 1152921504606847232 = 1152921504606847232 := by
    decide +kernel
  obtain ⟨-, -, -, x, hx, hvalue⟩ := modulo_exact (a := ⟨-4611686018427387392, "em"⟩)
    (b := ⟨1152921504606847232, "px"⟩) ha hb (by norm_num [abs_lt]) (by norm_num [abs_lt])
    (by rw [hq]; decide)
  rw [hp, hq] at hvalue
  exact ⟨x, hx, hvalue⟩

end Arithmetic

end StyleFunctions
