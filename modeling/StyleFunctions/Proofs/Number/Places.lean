import Mathlib.Data.Int.Log
import Mathlib.Order.Monotone.Odd
import Mathlib.Tactic
import StyleFunctions.Number.Binary64
import StyleFunctions.Number.Places
import StyleFunctions.Proofs.Number.Exact
import StyleFunctions.Proofs.Number.Rounding

/-!
# Rounding to decimal places, exactly

Over the rationals, `round x digits` counts the units of a place in `x` and rounds that count to an
integer (`Places.round_exact`).

* A count between `1` and `10 ^ 14` is rounded twice, first to `extraPlaces` more decimal places,
  and those are taken back before the second rounding — up to sixty of them (`roundTwice`).
* `Places.round_isRounding` — for ordinary counts of places this is a rounding to the multiples of
  the place: near, idempotent, odd and monotone.
* `Places.round_within_place_iff` — at places above `10 ^ 120` more than sixty extra places are
  asked for, and exactly there a number can be moved by more than one unit of the place.
-/

namespace StyleFunctions.Places

/-! ## The exact reading of the parts -/

theorem scale_exact (x : Rat) (power : Int) : scale x power = x * 10 ^ power := by
  rw [scale]
  split
  · rename_i h
    have hpow : (Scalar.pow10 power.toNat : Rat) = 10 ^ power := by
      rw [← Int.toNat_of_nonneg h, zpow_natCast]
      rfl
    rw [hpow]
  · rename_i h
    have hpow : (Scalar.pow10 (-power).toNat : Rat) = 10 ^ (-power) := by
      rw [← Int.toNat_of_nonneg (by omega : 0 ≤ -power), zpow_natCast]
      rfl
    rw [hpow, zpow_neg, div_inv_eq_mul]

theorem unscale?_exact (r : Rat) (d : Int) : unscale? r d = some (r * 10 ^ (-d)) := by
  rw [unscale?]
  split
  · rw [scale_exact]
  · split
    · rename_i h
      have hzero : r = 0 := eq_of_beq h
      rw [hzero, zero_mul]
    · rfl

theorem precision_exact {x : Rat} (hx : x ≠ 0) (d : Int) :
    precision x = leadingDigits + d - Int.log 10 |x * 10 ^ d| := by
  have hpow : (0 : Rat) < 10 ^ d := by positivity
  have ht : 0 < |x * 10 ^ d| := abs_pos.2 (mul_ne_zero hx hpow.ne')
  have hlog : Rounding.log10Floor |x| = Int.log 10 |x * 10 ^ d| - d := by
    have hlow := Int.zpow_log_le_self (b := 10) (by omega) ht
    have hhigh := Int.lt_zpow_succ_log_self (b := 10) (by omega) |x * 10 ^ d|
    rw [abs_mul, abs_of_pos hpow] at hlow hhigh ⊢
    refine Rounding.log10Floor_eq ?_ ?_
    · rw [zpow_sub₀ (by norm_num), div_le_iff₀ hpow]
      exact_mod_cast hlow
    · rw [sub_add_eq_add_sub, zpow_sub₀ (by norm_num), lt_div_iff₀ hpow]
      exact_mod_cast hhigh
  have hdef : precision x = leadingDigits - Rounding.log10Floor (Scalar.abs x) := rfl
  rw [hdef, Scalar.abs_exact, hlog]
  ring

/-! ## Two roundings -/

/-- A number rounded to an integer after a first rounding to `extra` decimal places.  At most
sixty of them are taken back before the second rounding. -/
def roundTwice (extra : Nat) (t : Rat) : Int :=
  Rounding.halfAway (Rounding.halfAway (t * 10 ^ extra) / 10 ^ min extra 60)

theorem roundTwice_zero (t : Rat) : roundTwice 0 t = Rounding.halfAway t := by
  rw [roundTwice, pow_zero, mul_one, Nat.zero_min, pow_zero, div_one, Rounding.halfAway_intCast]

theorem roundTwice_neg (extra : Nat) (t : Rat) : roundTwice extra (-t) = -roundTwice extra t := by
  rw [roundTwice, neg_mul, Rounding.halfAway_neg, Int.cast_neg, neg_div, Rounding.halfAway_neg,
    roundTwice]

theorem roundTwice_mono (extra : Nat) : Monotone (roundTwice extra) := by
  intro s t hst
  refine Rounding.halfAway_mono (div_le_div_of_nonneg_right ?_ (by positivity))
  exact_mod_cast Rounding.halfAway_mono (mul_le_mul_of_nonneg_right hst (by positivity))

section Few

variable {extra : Nat} (hextra : extra ≤ 60)
include hextra

theorem roundTwice_intCast (n : Int) : roundTwice extra n = n := by
  have hfirst : Rounding.halfAway ((n : Rat) * 10 ^ extra) = n * 10 ^ extra := by
    exact_mod_cast Rounding.halfAway_intCast (n * 10 ^ extra)
  rw [roundTwice, hfirst, Nat.min_eq_left hextra]
  push_cast
  rw [mul_div_cancel_right₀ _ (by positivity), Rounding.halfAway_intCast]

/-- The first rounding adds a tenth to the error of the second one at most. -/
theorem abs_roundTwice_sub_le (t : Rat) : |(roundTwice extra t : Rat) - t| ≤ 55 / 100 := by
  rcases Nat.eq_zero_or_pos extra with rfl | hpos
  · rw [roundTwice_zero]
    exact (Rounding.abs_halfAway_sub_le t).trans (by norm_num)
  · have hpow₀ : (0 : Rat) < 10 ^ extra := by positivity
    have hpow : (10 : Rat) ≤ 10 ^ extra := le_self_pow₀ (by norm_num) hpos.ne'
    have hfirst : |(Rounding.halfAway (t * 10 ^ extra) : Rat) / 10 ^ extra - t| ≤ 1 / 20 := by
      have hhalf := Rounding.abs_halfAway_sub_le (t * 10 ^ extra)
      rw [div_sub' hpow₀.ne', mul_comm _ t, abs_div, abs_of_pos hpow₀, div_le_iff₀ hpow₀]
      linarith
    have hsecond := Rounding.abs_halfAway_sub_le
      ((Rounding.halfAway (t * 10 ^ extra) : Rat) / 10 ^ extra)
    rw [roundTwice, Nat.min_eq_left hextra]
    rw [abs_le] at hfirst hsecond ⊢
    constructor <;> linarith

end Few

/-- Places beyond sixty are not taken back. -/
theorem roundTwice_sixty_add (n : Nat) (t : Rat) :
    roundTwice (60 + n) t = roundTwice 60 (t * 10 ^ n) := by
  have hscale : t * 10 ^ (60 + n) = t * 10 ^ n * 10 ^ 60 := by ring
  rw [roundTwice, roundTwice, hscale, Nat.min_eq_right (Nat.le_add_right 60 n), Nat.min_self]

/-- With more than sixty extra places a number does not come back to its size. -/
theorem le_abs_roundTwice_sub {extra : Nat} (hextra : 60 < extra) {t : Rat} (ht : 1 ≤ |t|) :
    8 * |t| ≤ |(roundTwice extra t : Rat) - t| := by
  obtain ⟨n, rfl⟩ := Nat.exists_eq_add_of_le hextra.le
  have hpow : (10 : Rat) ≤ 10 ^ n := le_self_pow₀ (by norm_num) (by omega)
  have hnear := abs_roundTwice_sub_le le_rfl (t * 10 ^ n)
  have hfar : 9 * |t| ≤ |t * 10 ^ n - t| := by
    have hfactor : t * 10 ^ n - t = t * (10 ^ n - 1) := by ring
    rw [hfactor, abs_mul, abs_of_nonneg (by linarith : (0 : Rat) ≤ 10 ^ n - 1), mul_comm]
    exact mul_le_mul_of_nonneg_left (by linarith) (abs_nonneg t)
  rw [roundTwice_sixty_add]
  calc 8 * |t| ≤ |t * 10 ^ n - t| - |(roundTwice 60 (t * 10 ^ n) : Rat) - t * 10 ^ n| := by linarith
    _ ≤ |(roundTwice 60 (t * 10 ^ n) : Rat) - t| := by
      rw [abs_sub_comm _ (t * 10 ^ n)]
      exact (abs_sub_abs_le_abs_sub _ _).trans_eq (by rw [sub_sub_sub_cancel_left])

/-! ## Counting the units of a place -/

/-- The places that the first rounding keeps beyond the place `d`, for a number with `n` whole
units of it: enough for fifteen digits, and none if the number has no units or more than fourteen
digits of them.  The first rounding is never to a place above `10 ^ 60`, so that more places are
extra for places above that. -/
def extraPlaces (d : Int) (n : Nat) : Nat :=
  if 1 ≤ n ∧ n < 10 ^ 14 then (max (leadingDigits - Nat.log 10 n) (minExponent - d)).toNat else 0

/-- All extra places are taken back, unless the place is above `10 ^ 120`. -/
theorem extraPlaces_le_iff (d : Int) (t : Rat) :
    extraPlaces d ⌊|t|⌋₊ ≤ 60 ↔ -120 ≤ d ∨ |t| < 1 ∨ 10 ^ 14 ≤ |t| := by
  have hnone : |t| < 1 ↔ ⌊|t|⌋₊ = 0 := Nat.floor_eq_zero.symm
  have hmany : 10 ^ 14 ≤ |t| ↔ 10 ^ 14 ≤ ⌊|t|⌋₊ := by
    rw [Nat.le_floor_iff (abs_nonneg t)]
    norm_cast
  rw [hnone, hmany, extraPlaces, leadingDigits, minExponent]
  split <;> omega

/-- A number of units of the place `d`, rounded to whole units. -/
def wholeUnits (d : Int) (t : Rat) : Int := roundTwice (extraPlaces d ⌊|t|⌋₊) t

/-- The first rounding is of use where the number has one to fourteen digits before the place. -/
theorem precision_lt_iff {x : Rat} (hx : x ≠ 0) (d : Int) :
    d < precision x ∧ precision x - 15 < d ↔ 1 ≤ ⌊|x * 10 ^ d|⌋₊ ∧ ⌊|x * 10 ^ d|⌋₊ < 10 ^ 14 := by
  have ht : 0 < |x * 10 ^ d| := abs_pos.2 (mul_ne_zero hx (by positivity))
  have hlow : 1 ≤ ⌊|x * 10 ^ d|⌋₊ ↔ 0 ≤ Int.log 10 |x * 10 ^ d| := by
    rw [Nat.one_le_floor_iff, ← Int.zpow_le_iff_le_log (by omega) ht, zpow_zero]
  have hhigh : ⌊|x * 10 ^ d|⌋₊ < 10 ^ 14 ↔ Int.log 10 |x * 10 ^ d| < 14 := by
    rw [Nat.floor_lt ht.le, ← Int.lt_zpow_iff_log_lt (by omega) ht]
    norm_cast
  rw [hlow, hhigh, precision_exact hx d, leadingDigits]
  omega

/-- What is scaled is the number of units, rounded once where that is of use. -/
theorem scaled?_exact {x : Rat} (hx : x ≠ 0) (d : Int) :
    (scaled? x d).map Rounding.halfAway =
      if |x * 10 ^ d| < 10 ^ 15 then some (wholeUnits d (x * 10 ^ d)) else none := by
  have hiff := precision_lt_iff hx d
  by_cases hfirst : 1 ≤ ⌊|x * 10 ^ d|⌋₊ ∧ ⌊|x * 10 ^ d|⌋₊ < 10 ^ 14
  · have hone : 1 ≤ |x * 10 ^ d| := (Nat.one_le_floor_iff _).1 hfirst.1
    have hbound : |x * 10 ^ d| < 10 ^ 15 := by
      have h := (Nat.floor_lt (abs_nonneg _)).1 hfirst.2
      norm_num at h ⊢
      linarith
    obtain ⟨hlow, hhigh⟩ := hiff.2 hfirst
    -- the first rounding is to the place `d + extra`, and the shift takes `extra` places back
    obtain ⟨extra, hextra⟩ : ∃ extra : Nat, extra = extraPlaces d ⌊|x * 10 ^ d|⌋₊ := ⟨_, rfl⟩
    have hfine : max (precision x) minExponent = d + extra := by
      rw [hextra, extraPlaces, if_pos hfirst, precision_exact hx d,
        Int.log_of_one_le_right 10 hone]
      rw [precision_exact hx d, Int.log_of_one_le_right 10 hone] at hlow
      omega
    have hshift : (max (d - (d + extra)) minExponent).natAbs = min extra 60 := by
      rw [minExponent]
      omega
    have hscale : scale x (d + extra) = x * 10 ^ d * 10 ^ extra := by
      rw [scale_exact, zpow_add₀ (by norm_num), zpow_natCast, mul_assoc]
    rw [scaled?, if_pos (by simp [hlow, hhigh]), if_pos hbound, wholeUnits, ← hextra]
    simp only [hfine, hshift, hscale, Option.map_some]
    rfl
  · have hcond : ¬ (d < precision x ∧ precision x - 15 < d) := mt hiff.1 hfirst
    have hfinite : Scalar.isFinite (x * 10 ^ d) = true := rfl
    have hbound : (exactBound : Rat) = 10 ^ 15 := by
      change (1000000000000000 : Rat) = 10 ^ 15
      norm_num
    rw [scaled?, if_neg (by simpa using hcond), wholeUnits, extraPlaces, if_neg hfirst,
      roundTwice_zero]
    simp only [scale_exact, hfinite, Scalar.abs_exact, hbound, Bool.true_and, decide_eq_true_eq]
    split <;> rfl

/-- A number is rounded to a whole number of units, unless it has too many of them. -/
theorem round_exact (x digits : Rat) :
    round x digits =
      if |x * 10 ^ ofDigits digits| < 10 ^ 15 then
        (wholeUnits (ofDigits digits) (x * 10 ^ ofDigits digits) : Rat) * 10 ^ (-ofDigits digits)
      else x := by
  generalize hd : ofDigits digits = d
  rcases eq_or_ne x 0 with rfl | hx
  · have hzero : wholeUnits d 0 = 0 := by
      have hnone : extraPlaces d ⌊|(0 : Rat)|⌋₊ = 0 := by
        rw [abs_zero, Nat.floor_zero, extraPlaces, if_neg (by omega)]
      rw [wholeUnits, hnone, roundTwice_zero]
      exact_mod_cast Rounding.halfAway_intCast 0
    have hround : round 0 digits = 0 := rfl
    rw [hround, zero_mul, hzero, Int.cast_zero, zero_mul, ite_self]
  · have hround : round x digits = ((scaled? x d).map Rounding.halfAway).elim x
        fun n => (unscale? (n : Rat) d).getD x := by
      have hne : (!Scalar.isFinite x || x == 0) = false := by
        change (!true || x == 0) = false
        simpa using hx
      rw [round, hne, if_neg Bool.false_ne_true, hd]
      dsimp only
      cases scaled? x d <;> rfl
    rw [hround, scaled?_exact hx d]
    split
    · rw [Option.elim_some, unscale?_exact, Option.getD_some]
    · rw [Option.elim_none]

/-- So many units of a place are so many units. -/
theorem units_mul (t : Rat) (d : Int) : t * 10 ^ (-d) * 10 ^ d = t := by
  rw [mul_assoc, ← zpow_add₀ (by norm_num), neg_add_cancel, zpow_zero, mul_one]

theorem round_of_lt {x digits : Rat} {d : Int} (hd : ofDigits digits = d)
    (h : |x * 10 ^ d| < 10 ^ 15) :
    round x digits = (wholeUnits d (x * 10 ^ d) : Rat) * 10 ^ (-d) := by
  rw [round_exact, hd, if_pos h]

theorem round_of_le {x digits : Rat} {d : Int} (hd : ofDigits digits = d)
    (h : 10 ^ 15 ≤ |x * 10 ^ d|) : round x digits = x := by
  rw [round_exact, hd, if_neg (not_lt.2 h)]

/-- How far a number is moved is what its units are moved, times the place. -/
theorem abs_round_sub {x digits : Rat} {d : Int} (hd : ofDigits digits = d)
    (h : |x * 10 ^ d| < 10 ^ 15) :
    |round x digits - x| =
      |(wholeUnits d (x * 10 ^ d) : Rat) - x * 10 ^ d| * 10 ^ (-d) := by
  have hx : x = x * 10 ^ d * 10 ^ (-d) := by
    rw [mul_right_comm, units_mul]
  rw [round_of_lt hd h]
  nth_rewrite 2 [hx]
  rw [← sub_mul, abs_mul, abs_of_pos (by positivity : (0 : Rat) < 10 ^ (-d))]

/-! ## Whole units -/

theorem wholeUnits_neg (d : Int) (t : Rat) : wholeUnits d (-t) = -wholeUnits d t := by
  rw [wholeUnits, abs_neg, roundTwice_neg, wholeUnits]

section Low

variable {d : Int} (hd : -120 ≤ d)
include hd

theorem roundTwice_intCast_of_low (t : Rat) (n : Int) :
    roundTwice (extraPlaces d ⌊|t|⌋₊) n = n :=
  roundTwice_intCast ((extraPlaces_le_iff d t).2 (Or.inl hd)) n

theorem wholeUnits_intCast (n : Int) : wholeUnits d n = n := roundTwice_intCast_of_low hd n n

/-- Numbers with the same whole part are rounded with the same number of extra places, and any
others have an integer between them, which is kept. -/
theorem wholeUnits_mono : Monotone (wholeUnits d) := by
  refine monotone_of_odd_of_monotoneOn_nonneg (wholeUnits_neg d) fun s hs t ht hst => ?_
  have hfloor : ⌊s⌋₊ ≤ ⌊t⌋₊ := Nat.floor_mono hst
  rcases hfloor.eq_or_lt with heq | hlt
  · rw [wholeUnits, wholeUnits, abs_of_nonneg hs, abs_of_nonneg ht, heq]
    exact roundTwice_mono _ hst
  · have hbelow : s ≤ ((⌊t⌋₊ : Int) : Rat) := by
      have h := Nat.lt_of_floor_lt hlt
      exact_mod_cast h.le
    have habove : ((⌊t⌋₊ : Int) : Rat) ≤ t := by exact_mod_cast Nat.floor_le ht
    calc wholeUnits d s ≤ roundTwice (extraPlaces d ⌊|s|⌋₊) (⌊t⌋₊ : Int) := roundTwice_mono _ hbelow
      _ = ⌊t⌋₊ := roundTwice_intCast_of_low hd s _
      _ = roundTwice (extraPlaces d ⌊|t|⌋₊) (⌊t⌋₊ : Int) :=
          (roundTwice_intCast_of_low hd t _).symm
      _ ≤ wholeUnits d t := roundTwice_mono _ habove

end Low

/-! ## How far rounding moves a number -/

section Distance

variable {x digits : Rat} {d : Int} (hd : ofDigits digits = d)
include hd

/-- Where all extra places are taken back, rounding moves a number by little more than half of the
place. -/
theorem abs_round_sub_le (hextra : extraPlaces d ⌊|x * 10 ^ d|⌋₊ ≤ 60)
    (h : |x * 10 ^ d| < 10 ^ 15) : |round x digits - x| ≤ 55 / 100 * 10 ^ (-d) := by
  rw [abs_round_sub hd h]
  exact mul_le_mul_of_nonneg_right (abs_roundTwice_sub_le hextra _) (by positivity)

/-- Where they are not, it moves a number of at least one unit by eight times its size. -/
theorem le_abs_round_sub (hextra : 60 < extraPlaces d ⌊|x * 10 ^ d|⌋₊) :
    10 ^ (-d) ≤ |x| ∧ 8 * |x| ≤ |round x digits - x| := by
  obtain ⟨-, hunits⟩ := not_or.1 (mt (extraPlaces_le_iff d (x * 10 ^ d)).2 hextra.not_ge)
  obtain ⟨hone, hbound⟩ := not_or.1 hunits
  have hone : 1 ≤ |x * 10 ^ d| := not_lt.1 hone
  have hbound : |x * 10 ^ d| < 10 ^ 15 := (not_le.1 hbound).trans (by norm_num)
  have hplace : (0 : Rat) < 10 ^ (-d) := by positivity
  have habs : |x| = |x * 10 ^ d| * 10 ^ (-d) := by
    rw [← abs_of_pos hplace, ← abs_mul, mul_right_comm, units_mul]
  constructor
  · rw [habs]
    exact le_mul_of_one_le_left hplace.le hone
  · rw [abs_round_sub hd hbound, habs, ← mul_assoc]
    exact mul_le_mul_of_nonneg_right (le_abs_roundTwice_sub hextra hone) hplace.le

end Distance

/-! ## What rounding to a place keeps -/

/-- Rounding to multiples of `10 ^ (-d)`, as far as numbers have fewer than fifteen digits before
that place. -/
structure IsRounding (d : Int) (f : Rat → Rat) : Prop where
  /-- A number that is too large stays as it is; any other goes to a multiple of the place near
  to it. -/
  near (x : Rat) : 10 ^ 15 ≤ |x * 10 ^ d| ∧ f x = x ∨
    (∃ n : Int, f x * 10 ^ d = n) ∧ |f x - x| ≤ 55 / 100 * 10 ^ (-d)
  /-- Multiples of the place stay. -/
  multiple (n : Int) : f (n * 10 ^ (-d)) = n * 10 ^ (-d)
  /-- A second rounding changes nothing. -/
  idempotent (x : Rat) : f (f x) = f x
  /-- Opposite numbers are rounded to opposite numbers. -/
  odd (x : Rat) : f (-x) = -f x
  /-- The order is kept. -/
  monotone : Monotone f

theorem round_neg (x digits : Rat) : round (-x) digits = -round x digits := by
  rw [round_exact, round_exact, neg_mul, abs_neg, wholeUnits_neg]
  split
  · rw [Int.cast_neg, neg_mul]
  · rfl

section Low

variable {digits : Rat} {d : Int} (hd : ofDigits digits = d) (hlow : -120 ≤ d)
include hd hlow

theorem round_near (x : Rat) : 10 ^ 15 ≤ |x * 10 ^ d| ∧ round x digits = x ∨
    (∃ n : Int, round x digits * 10 ^ d = n) ∧ |round x digits - x| ≤ 55 / 100 * 10 ^ (-d) := by
  rcases lt_or_ge |x * 10 ^ d| (10 ^ 15) with h | h
  · have hmultiple : round x digits * 10 ^ d = wholeUnits d (x * 10 ^ d) := by
      rw [round_of_lt hd h, units_mul]
    exact Or.inr ⟨⟨_, hmultiple⟩, abs_round_sub_le hd ((extraPlaces_le_iff d _).2 (Or.inl hlow)) h⟩
  · exact Or.inl ⟨h, round_of_le hd h⟩

theorem round_multiple (n : Int) :
    round ((n : Rat) * 10 ^ (-d)) digits = (n : Rat) * 10 ^ (-d) := by
  have hunits : (n : Rat) * 10 ^ (-d) * 10 ^ d = n := units_mul n d
  rcases lt_or_ge |(n : Rat) * 10 ^ (-d) * 10 ^ d| (10 ^ 15) with h | h
  · rw [round_of_lt hd h, hunits, wholeUnits_intCast hlow]
  · exact round_of_le hd h

theorem round_round (x : Rat) : round (round x digits) digits = round x digits := by
  rcases lt_or_ge |x * 10 ^ d| (10 ^ 15) with h | h
  · rw [round_of_lt hd h, round_multiple hd hlow]
  · rw [round_of_le hd h, round_of_le hd h]

/-- The smallest number with too many digits is a whole number of units, so that it separates the
rounded numbers from those that stay. -/
theorem round_le_of_le {x y : Rat} (hx : |x * 10 ^ d| < 10 ^ 15) (hy : 10 ^ 15 ≤ y * 10 ^ d) :
    round x digits ≤ y := by
  have hbound : x * 10 ^ d ≤ ((10 ^ 15 : Int) : Rat) := by
    push_cast
    exact (le_abs_self _).trans hx.le
  have hwhole := wholeUnits_mono hlow hbound
  rw [wholeUnits_intCast hlow] at hwhole
  have hwhole' : (wholeUnits d (x * 10 ^ d) : Rat) ≤ 10 ^ 15 := by exact_mod_cast hwhole
  rw [round_of_lt hd hx]
  calc (wholeUnits d (x * 10 ^ d) : Rat) * 10 ^ (-d)
      ≤ y * 10 ^ d * 10 ^ (-d) := mul_le_mul_of_nonneg_right (hwhole'.trans hy) (by positivity)
    _ = y := by rw [mul_right_comm, units_mul]

theorem round_mono : Monotone fun x => round x digits := by
  refine monotone_of_odd_of_monotoneOn_nonneg (fun x => round_neg x digits) ?_
  intro x hx y hy hxy
  have hpow : (0 : Rat) ≤ 10 ^ d := by positivity
  have hunits : x * 10 ^ d ≤ y * 10 ^ d := mul_le_mul_of_nonneg_right hxy hpow
  have habs : |x * 10 ^ d| ≤ |y * 10 ^ d| := abs_le_abs_of_nonneg (mul_nonneg hx hpow) hunits
  change round x digits ≤ round y digits
  rcases lt_or_ge |y * 10 ^ d| (10 ^ 15) with hsmall | hlarge
  · have hwhole : (wholeUnits d (x * 10 ^ d) : Rat) ≤ wholeUnits d (y * 10 ^ d) := by
      exact_mod_cast wholeUnits_mono hlow hunits
    rw [round_of_lt hd hsmall, round_of_lt hd (habs.trans_lt hsmall)]
    exact mul_le_mul_of_nonneg_right hwhole (by positivity)
  · rw [round_of_le hd hlarge]
    rcases lt_or_ge |x * 10 ^ d| (10 ^ 15) with hx' | hx'
    · rw [abs_of_nonneg (mul_nonneg hy hpow)] at hlarge
      exact round_le_of_le hd hlow hx' hlarge
    · rwa [round_of_le hd hx']

theorem isRounding_round : IsRounding d fun x => round x digits :=
  ⟨round_near hd hlow, round_multiple hd hlow, round_round hd hlow, fun x => round_neg x digits,
    round_mono hd hlow⟩

end Low

/-- For ordinary counts of places, whatever their fraction. -/
theorem round_isRounding {digits : Rat} {d : Int} (hdigits : Rounding.towardZero digits = d)
    (hd : |d| ≤ 22) : IsRounding d fun x => round x digits := by
  obtain ⟨hlow, hhigh⟩ := abs_le.1 hd
  have hofDigits : ofDigits digits = d := by
    have hdef : ofDigits digits =
        Rounding.saturate (-maxPlaces) maxPlaces (Rounding.towardZero digits) := rfl
    rw [hdef, hdigits, maxPlaces]
    exact Rounding.saturate_eq_self (by omega) (by omega)
  exact isRounding_round hofDigits (by omega)

/-- To two places and a half, that is to two places. -/
theorem round_isRounding_two :
    Rounding.towardZero (5 / 2) = 2 ∧ |(2 : Int)| ≤ 22 ∧
      IsRounding 2 (fun x => round x (5 / 2)) ∧
      round (1005 / 1000 : Rat) (5 / 2) = 101 / 100 :=
  have hdigits : Rounding.towardZero (5 / 2) = 2 := by decide +kernel
  ⟨hdigits, by decide, round_isRounding hdigits (by decide), by decide +kernel⟩

/-! ## One unit of the place -/

/-- Rounding moves a number by one unit of the place at most, or leaves it as it is, exactly if
the place is not above `10 ^ 120` or the number has no digits before the place or more than
fourteen of them.  All other numbers are moved by eight times their size at least. -/
theorem round_within_place_iff (x digits : Rat) :
    ((|round x digits - x| ≤ 10 ^ (-ofDigits digits) ∨ round x digits = x) ↔
      -120 ≤ ofDigits digits ∨ |x * 10 ^ ofDigits digits| < 1 ∨
        10 ^ 14 ≤ |x * 10 ^ ofDigits digits|) ∧
    (¬ (-120 ≤ ofDigits digits ∨ |x * 10 ^ ofDigits digits| < 1 ∨
        10 ^ 14 ≤ |x * 10 ^ ofDigits digits|) → 8 * |x| ≤ |round x digits - x|) := by
  generalize hd : ofDigits digits = d
  have hplace : (0 : Rat) < 10 ^ (-d) := by positivity
  rw [← extraPlaces_le_iff]
  refine ⟨⟨fun h => ?_, fun h => ?_⟩, fun h => (le_abs_round_sub hd (not_le.1 h)).2⟩
  · by_contra hextra
    obtain ⟨hone, hfar⟩ := le_abs_round_sub hd (not_le.1 hextra)
    rcases h with hnear | hkept
    · linarith
    · rw [hkept, sub_self, abs_zero] at hfar
      linarith
  · rcases lt_or_ge |x * 10 ^ d| (10 ^ 15) with hsmall | hlarge
    · refine Or.inl ((abs_round_sub_le hd h hsmall).trans ?_)
      exact mul_le_of_le_one_left hplace.le (by norm_num)
    · exact Or.inr (round_of_le hd hlarge)

/-- At the place `10 ^ 121`, a number of ten digits before it. -/
theorem round_far_from_place :
    let big : Rat := 10 ^ 130
    8 * |big| ≤ |round big (-121) - big| :=
  (round_within_place_iff (10 ^ 130) (-121)).2 (by decide +kernel)

/-- Rounded to the place `10 ^ 125`, the number `10 ^ 130` becomes `10 ^ 135`, exactly and in
binary64. -/
theorem round_grows :
    let big : Rat := 10 ^ 130
    ofDigits (-125 : Rat) = -125 ∧
      ¬ (|round big (-125) - big| ≤ 10 ^ (-(-125 : Int)) ∨ round big (-125) = big) ∧
      round big (-125) = 10 ^ 135 ∧ (round (1e130 : Float) (-125) == 1e135) = true := by
  decide +kernel

end StyleFunctions.Places
