import Mathlib
import StyleFunctions.Number.Binary64
import StyleFunctions.Proofs.Number.Exact
import StyleFunctions.Proofs.Number.Lawful

/-!
# Binary64 numbers and their exact values

A rational number is a magnitude of the binary64 grid when it is the value of some magnitude bits
below those of infinity (`Binary64.IsMagnitude`).

* `Binary64.value?_nearest_round` — below infinity, a number is packed as the grid value nearest to
  it, a carry into the exponent included.
* `Binary64.value?_nearest` — a number whose magnitude lies on the grid is packed without loss.
* `Binary64.isMagnitude_mul_zpow` — 53 significant bits at any place of the range lie on the grid.
* `Binary64.value?_round` and `Binary64.value?_trunc` — a finite number is rounded to an integer
  without loss.
-/

namespace StyleFunctions

namespace Binary64

open Float.Model Float.Model.UnpackedFloat

/-! ## Bits -/

/-- Bits that are not those of infinity or of what is not a number are kept. -/
theorem toBits_ofBits {b : UInt64} (h : b.toNat / 2 ^ 52 % 2 ^ 11 ≠ 2047) :
    (Float.ofBits b).toBits = b := by
  have hnan : @isNaNBits Format.binary64 b.toBitVec = false := by
    rw [isNaNBits, decide_eq_false_iff_not]
    rintro ⟨hexponent, -⟩
    have hfield := congrArg BitVec.toNat hexponent
    rw [unpackExponent_def] at hfield
    simp only [BitVec.extractLsb'_toNat, Nat.shiftRight_eq_div_pow] at hfield
    exact h hfield
  have hpack := @pack_unpack Format.binary64 b.toBitVec (by decide)
  rw [hnan] at hpack
  exact UInt64.toBitVec_inj.1 hpack

/-- The units of the last place in magnitude bits. -/
def units (m : Nat) : Nat :=
  if m / exponentUnit = 0 then m % exponentUnit else exponentUnit + m % exponentUnit

/-- The place of the last unit in magnitude bits. -/
def place (m : Nat) : Int := (Nat.max (m / exponentUnit) 1 : Nat) - 1075

/-- The number that magnitude bits stand for. -/
def ofMagnitude (m : Nat) : Rat := units m * (2 : Rat) ^ place m

/-- A number with its sign. -/
def signed (negative : Bool) (q : Rat) : Rat := if negative then -q else q

theorem value?_eq_signed (x : Float) :
    value? x =
      if x.toBits.toNat % signBit / exponentUnit = specialExponent then none
      else some (signed (isNegative x) (ofMagnitude (x.toBits.toNat % signBit))) := rfl

/-- Magnitude bits with a sign bit. -/
def withSign (negative : Bool) (m : Nat) : Float :=
  Float.ofBits (UInt64.ofNat ((if negative then signBit else 0) + m))

/-- The value of bits that are put together. -/
theorem value?_withSign (negative : Bool) {m : Nat} (h : m < infinityBits) :
    value? (withSign negative m) = some (signed negative (ofMagnitude m)) := by
  have hm : m < 2047 * 2 ^ 52 := h
  obtain ⟨s, hs, hsign⟩ : ∃ s, (s = 0 ∧ negative = false ∨ s = signBit ∧ negative = true) ∧
      s = if negative then signBit else 0 := by
    cases negative <;> simp
  have hlt : s + m < 2 ^ 64 := by
    rw [signBit] at hs
    omega
  have hnat : (UInt64.ofNat (s + m)).toNat = s + m := by
    rw [UInt64.toNat_ofNat', Nat.mod_eq_of_lt hlt]
  have hkept : (withSign negative m).toBits.toNat = s + m := by
    rw [withSign, ← hsign, toBits_ofBits, hnat]
    rw [hnat]
    rw [signBit] at hs
    omega
  have hmagnitude : (s + m) % signBit = m := by
    rw [signBit] at hs ⊢
    omega
  have hnegative : isNegative (withSign negative m) = negative := by
    rw [isNegative, hkept]
    rw [signBit] at hs ⊢
    rcases hs with ⟨rfl, rfl⟩ | ⟨rfl, rfl⟩
    · exact decide_eq_false (by omega)
    · exact decide_eq_true (by omega)
  have hfinite : m / exponentUnit ≠ specialExponent := by
    rw [exponentUnit, specialExponent]
    omega
  rw [value?_eq_signed, hnegative, hkept, hmagnitude, if_neg hfinite]

/-! ## Magnitudes -/

theorem place_eq (m : Nat) :
    place m = -1074 ∧ m / exponentUnit = 0 ∨
      place m = (m / exponentUnit : Nat) - 1075 ∧ m / exponentUnit ≠ 0 := by
  have hplace : place m = ((max (m / exponentUnit) 1 : Nat) : Int) - 1075 := rfl
  rw [hplace]
  generalize m / exponentUnit = exponent
  omega

theorem neg_le_place (m : Nat) : -1074 ≤ place m := by
  have hplace : place m = ((max (m / exponentUnit) 1 : Nat) : Int) - 1075 := rfl
  rw [hplace]
  generalize m / exponentUnit = exponent
  omega

theorem units_lt (m : Nat) : units m < 2 ^ 53 := by
  rw [units, exponentUnit]
  split <;> omega

/-- Only the smallest place has fewer than 53 significant bits. -/
theorem place_eq_or_le_units (m : Nat) : place m = -1074 ∨ 2 ^ 52 ≤ units m := by
  rcases place_eq m with ⟨h, -⟩ | ⟨-, h⟩
  · exact Or.inl h
  · refine Or.inr ?_
    rw [units, if_neg h, exponentUnit]
    omega

/-- Units and place lie side by side in the bits. -/
theorem units_add_place (m : Nat) : units m + (place m + 1074).toNat * exponentUnit = m := by
  have hsplit := Nat.div_add_mod m exponentUnit
  rw [units]
  rcases place_eq m with ⟨hplace, h⟩ | ⟨hplace, h⟩
  · rw [h] at hsplit
    rw [if_pos h, hplace]
    simpa using hsplit
  · rw [exponentUnit] at *
    rw [if_neg h, hplace]
    omega

theorem log2Floor_mul_zpow {u : Nat} (hu : u ≠ 0) (p : Int) :
    Rounding.log2Floor (u * (2 : Rat) ^ p) = u.log2 + p := by
  have hp : (0 : Rat) < 2 ^ p := by positivity
  refine Rounding.log2Floor_eq ?_ ?_
  · rw [zpow_add₀ two_ne_zero]
    refine mul_le_mul_of_nonneg_right ?_ hp.le
    exact_mod_cast Nat.log2_self_le hu
  · rw [add_right_comm, zpow_add₀ two_ne_zero]
    refine mul_lt_mul_of_pos_right ?_ hp
    exact_mod_cast Nat.lt_log2_self (n := u)

/-- Units and place may overlap in the bits where the units carry into the place. -/
theorem ofMagnitude_add_mul {u e : Nat} (hu : u ≤ 2 ^ 53) (h : 2 ^ 52 ≤ u ∨ e = 0) :
    ofMagnitude (u + e * 2 ^ 52) = u * (2 : Rat) ^ ((e : Int) - 1074) := by
  have hfull {u e : Nat} (hlow : 2 ^ 52 ≤ u) (hhigh : u < 2 ^ 53) :
      ofMagnitude (u + e * 2 ^ 52) = u * (2 : Rat) ^ ((e : Int) - 1074) := by
    have hfield : (u + e * 2 ^ 52) / exponentUnit = e + 1 := by
      rw [exponentUnit]
      omega
    have hunits : units (u + e * 2 ^ 52) = u := by
      rw [units, hfield, if_neg (Nat.succ_ne_zero e), exponentUnit]
      omega
    have hplace : place (u + e * 2 ^ 52) = (e : Int) - 1074 := by
      rcases place_eq (u + e * 2 ^ 52) with ⟨-, h⟩ | ⟨h, -⟩
      · omega
      · rw [h, hfield]
        omega
    rw [ofMagnitude, hunits, hplace]
  rcases lt_or_ge u (2 ^ 52) with hlow | hlow
  · obtain rfl : e = 0 := h.resolve_left hlow.not_ge
    have hfield : u / exponentUnit = 0 := by
      rw [exponentUnit]
      omega
    have hunits : units u = u := by
      rw [units, if_pos hfield, exponentUnit]
      omega
    have hplace : place u = -1074 := by
      rcases place_eq u with ⟨h, -⟩ | ⟨-, h⟩
      · exact h
      · exact absurd hfield h
    rw [zero_mul, add_zero, ofMagnitude, hunits, hplace]
    rfl
  · rcases hu.lt_or_eq with hhigh | rfl
    · exact hfull hlow hhigh
    · -- the carry of the units raises the exponent
      have hcarry : 2 ^ 53 + e * 2 ^ 52 = 2 ^ 52 + (e + 1) * 2 ^ 52 := by ring
      have hshift : ((e + 1 : Nat) : Int) - 1074 = (e : Int) - 1074 + 1 := by
        push_cast
        ring
      rw [hcarry, hfull le_rfl (by norm_num), hshift, zpow_add₀ two_ne_zero]
      push_cast
      ring

theorem unitExponent_ofMagnitude {m : Nat} (h : units m ≠ 0) :
    Grid.unitExponent (ofMagnitude m) = place m := by
  have hpos : ¬ ofMagnitude m < 0 := by
    rw [ofMagnitude]
    exact not_lt.2 (by positivity)
  have hlog : (units m).log2 < 53 := (Nat.log2_lt h).2 (units_lt m)
  rw [Grid.unitExponent, if_neg hpos, ofMagnitude, log2Floor_mul_zpow h]
  rcases place_eq_or_le_units m with hplace | hunits
  · omega
  · have hlog' : 52 ≤ (units m).log2 := (Nat.le_log2 h).2 hunits
    have hplace := neg_le_place m
    omega

theorem significand_ofMagnitude {m : Nat} (h : units m ≠ 0) :
    Grid.significand (ofMagnitude m) = units m := by
  have hp : (2 : Rat) ^ place m ≠ 0 := by positivity
  rw [Grid.significand, unitExponent_ofMagnitude h, ofMagnitude, mul_div_cancel_right₀ _ hp]
  exact_mod_cast Rounding.halfEven_intCast (units m)

/-- The magnitude bits nearest to a number. -/
def bits (q : Rat) : Nat :=
  if q = 0 then 0
  else (Grid.significand q).toNat + (Grid.unitExponent q + 1074).toNat * exponentUnit

/-- Packing a magnitude of the grid puts its bits together again. -/
theorem bits_ofMagnitude (m : Nat) : bits (ofMagnitude m) = m := by
  have hsum := units_add_place m
  rw [bits]
  by_cases hu : units m = 0
  · have hzero : ofMagnitude m = 0 := by rw [ofMagnitude, hu, Nat.cast_zero, zero_mul]
    rw [if_pos hzero]
    rcases place_eq_or_le_units m with hplace | hunits
    · rw [hu, hplace] at hsum
      simpa using hsum
    · rw [hu] at hunits
      omega
  · have hne : ofMagnitude m ≠ 0 := by
      rw [ofMagnitude]
      positivity
    rw [if_neg hne, significand_ofMagnitude hu, unitExponent_ofMagnitude hu, Int.toNat_natCast,
      hsum]

theorem unitExponent_eq {q : Rat} (hq : 0 < q) :
    Grid.unitExponent q = max (Int.log 2 q - 52) (-1074) := by
  have hlow := Int.zpow_log_le_self (b := 2) (by omega) hq
  have hhigh := Int.lt_zpow_succ_log_self (b := 2) (by omega) q
  rw [Grid.unitExponent, if_neg hq.not_gt]
  rw [Rounding.log2Floor_eq (by exact_mod_cast hlow) (by exact_mod_cast hhigh)]

/-- The significand of a number is full, or its place is the smallest one. -/
theorem significand_mem {q : Rat} (hq : 0 < q) :
    0 ≤ Grid.significand q ∧ Grid.significand q ≤ 2 ^ 53 ∧
      (2 ^ 52 ≤ Grid.significand q ∨ Grid.unitExponent q = -1074) := by
  have hlow := Int.zpow_log_le_self (b := 2) (by omega) hq
  have hhigh := Int.lt_zpow_succ_log_self (b := 2) (by omega) q
  push_cast at hlow hhigh
  have hexponent := unitExponent_eq hq
  have hunit : (0 : Rat) < 2 ^ Grid.unitExponent q := by positivity
  have hupper : q / 2 ^ Grid.unitExponent q ≤ ((2 ^ 53 : Int) : Rat) := by
    rw [div_le_iff₀ hunit]
    push_cast
    calc q ≤ 2 ^ (Int.log 2 q + 1) := hhigh.le
      _ ≤ 2 ^ (53 + Grid.unitExponent q) := zpow_le_zpow_right₀ one_le_two (by omega)
      _ = 2 ^ 53 * 2 ^ Grid.unitExponent q := by
        rw [zpow_add₀ two_ne_zero]
        rfl
  refine ⟨?_, Rounding.halfEven_le hupper, ?_⟩
  · exact Rounding.le_halfEven (by exact_mod_cast (div_pos hq hunit).le)
  · rcases le_total (-1074) (Int.log 2 q - 52) with hle | hle
    · refine Or.inl (Rounding.le_halfEven ?_)
      rw [hexponent, max_eq_left hle, zpow_sub₀ two_ne_zero, le_div_iff₀ (by positivity)]
      push_cast
      calc (2 : Rat) ^ 52 * (2 ^ Int.log 2 q / 2 ^ (52 : Int)) = 2 ^ Int.log 2 q := by
            rw [mul_comm, ← zpow_natCast]
            exact div_mul_cancel₀ _ (by positivity)
        _ ≤ q := hlow
    · exact Or.inr (hexponent.trans (max_eq_right hle))

/-- The bits of infinity are out of reach below half of the largest power of two. -/
theorem bits_lt {q : Rat} (hq : 0 ≤ q) (h : q < 2 ^ (1023 : Int)) : bits q < infinityBits := by
  rw [bits, infinityBits, specialExponent, exponentUnit]
  split
  · omega
  · rename_i hne
    have hpos : 0 < q := lt_of_le_of_ne hq (Ne.symm hne)
    have hlog : Int.log 2 q < 1023 :=
      (Int.lt_zpow_iff_log_lt (by omega) hpos).1 (by exact_mod_cast h)
    obtain ⟨-, hle, -⟩ := significand_mem hpos
    have hexponent := unitExponent_eq hpos
    omega

/-- The magnitude bits nearest to a number stand for the nearest value of the grid. -/
theorem ofMagnitude_bits {q : Rat} (hq : 0 ≤ q) : ofMagnitude (bits q) = Grid.round q := by
  rw [bits, Grid.round]
  split
  · simpa using ofMagnitude_add_mul (u := 0) (e := 0) (by norm_num) (Or.inr rfl)
  · rename_i hne
    obtain ⟨hnonneg, hle, hfull⟩ := significand_mem (lt_of_le_of_ne hq (Ne.symm hne))
    have hplace : -1074 ≤ Grid.unitExponent q := le_max_right _ _
    obtain ⟨u, hu⟩ := Int.eq_ofNat_of_zero_le hnonneg
    obtain ⟨e, he⟩ := Int.eq_ofNat_of_zero_le (by omega : 0 ≤ Grid.unitExponent q + 1074)
    rw [hu] at hle hfull ⊢
    rw [he, Int.toNat_natCast, Int.toNat_natCast, exponentUnit]
    have hplace' : Grid.unitExponent q = (e : Int) - 1074 := by omega
    rw [hplace']
    exact_mod_cast ofMagnitude_add_mul (u := u) (e := e) (by omega) (by omega)

theorem value?_pack (negative : Bool) {q : Rat} (hq : 0 ≤ q) (h : bits q < infinityBits) :
    value? (pack negative q) = some (signed negative (Grid.round q)) := by
  have hpack : pack negative q = withSign negative (Nat.min (bits q) infinityBits) := rfl
  have hmin : Nat.min (bits q) infinityBits = bits q := Nat.min_eq_left h.le
  rw [hpack, hmin, value?_withSign negative h, ofMagnitude_bits hq]

theorem round_neg (q : Rat) : Grid.round (-q) = -Grid.round q := by
  rcases eq_or_ne q 0 with rfl | hq
  · rfl
  · have hexponent : Grid.unitExponent (-q) = Grid.unitExponent q := by
      rw [Grid.unitExponent, Grid.unitExponent]
      rcases hq.lt_or_gt with h | h
      · rw [if_neg (by linarith), if_pos h]
      · rw [if_pos (by linarith), if_neg h.not_gt, neg_neg]
    have hsignificand : Grid.significand (-q) = -Grid.significand q := by
      rw [Grid.significand, hexponent, neg_div, Rounding.halfEven_neg, Grid.significand]
    rw [Grid.round, Grid.round, hexponent, hsignificand, if_neg hq, if_neg (neg_ne_zero.2 hq),
      Int.cast_neg, neg_mul]

/-- Below infinity, the number nearest to `q` has the nearest value of the grid. -/
theorem value?_nearest_round {q : Rat} (h : bits |q| < infinityBits) (like : Float) :
    value? (nearest like q) = some (Grid.round q) := by
  rw [nearest]
  rcases lt_trichotomy q 0 with hq | rfl | hq
  · rw [abs_of_neg hq] at h
    rw [if_pos hq, value?_pack true (neg_pos.2 hq).le h, signed, if_pos rfl, round_neg, neg_neg]
  · rw [abs_zero] at h
    have hzero : Grid.round 0 = 0 := rfl
    rw [if_neg (lt_irrefl _), if_neg (lt_irrefl _), value?_pack _ le_rfl h, signed, hzero, neg_zero,
      ite_self]
  · rw [abs_of_pos hq] at h
    rw [if_neg hq.le.not_gt, if_pos hq, value?_pack false hq.le h]
    rfl

/-- A number is the value of magnitude bits below those of infinity. -/
def IsMagnitude (q : Rat) : Prop := ∃ m < infinityBits, q = ofMagnitude m

theorem IsMagnitude.nonneg {q : Rat} (h : IsMagnitude q) : 0 ≤ q := by
  obtain ⟨m, -, rfl⟩ := h
  rw [ofMagnitude]
  positivity

theorem isMagnitude_of_value? {x : Float} {q : Rat} (h : value? x = some q) : IsMagnitude |q| := by
  rw [value?_eq_signed] at h
  split at h
  · cases h
  · rename_i hfinite
    cases h
    have hm : IsMagnitude (ofMagnitude (x.toBits.toNat % signBit)) := by
      refine ⟨_, ?_, rfl⟩
      rw [infinityBits, specialExponent, exponentUnit, signBit] at *
      omega
    rw [signed]
    split
    · rwa [abs_neg, abs_of_nonneg hm.nonneg]
    · rwa [abs_of_nonneg hm.nonneg]

/-- A number whose magnitude lies on the grid is the nearest value of the grid. -/
theorem round_eq_self {q : Rat} (h : IsMagnitude |q|) : Grid.round q = q := by
  obtain ⟨m, -, hm⟩ := h
  have habs : Grid.round |q| = |q| := by
    rw [← ofMagnitude_bits (abs_nonneg q), hm, bits_ofMagnitude]
  rcases abs_choice q with hq | hq
  · rwa [hq] at habs
  · rw [hq, round_neg] at habs
    exact neg_injective habs

/-- A number whose magnitude lies on the grid is packed without loss. -/
theorem value?_nearest {q : Rat} (h : IsMagnitude |q|) (like : Float) :
    value? (nearest like q) = some q := by
  obtain ⟨m, hm, hq⟩ := h
  have hbits : bits |q| < infinityBits := by rwa [hq, bits_ofMagnitude]
  rw [value?_nearest_round hbits, round_eq_self ⟨m, hm, hq⟩]

/-! ## Integers -/

/-- At most 53 significant bits, at any place of the range, lie on the grid. -/
theorem isMagnitude_mul_zpow {u : Nat} (hu : u < 2 ^ 53) {e : Int} (hlow : -1074 ≤ e)
    (hhigh : e ≤ 971) : IsMagnitude (u * (2 : Rat) ^ e) := by
  obtain ⟨p, hp⟩ := Int.eq_ofNat_of_zero_le (by omega : 0 ≤ e + 1074)
  have he : e = (p : Int) - 1074 := by omega
  -- the place is lowered by `k`, until the significand is full or the place is the smallest
  obtain ⟨k, hk, hfull⟩ : ∃ k ≤ p, u * 2 ^ k < 2 ^ 53 ∧ (2 ^ 52 ≤ u * 2 ^ k ∨ p - k = 0) := by
    rcases Nat.eq_zero_or_pos u with rfl | hpos
    · exact ⟨p, le_rfl, by simp⟩
    · have hlog : u.log2 < 53 := (Nat.log2_lt hpos.ne').2 hu
      have hbelow {k : Nat} (hk : u.log2 + k ≤ 52) : u * 2 ^ k < 2 ^ 53 := by
        calc u * 2 ^ k < 2 ^ (u.log2 + 1) * 2 ^ k :=
              Nat.mul_lt_mul_of_pos_right Nat.lt_log2_self (by positivity)
          _ = 2 ^ (u.log2 + 1 + k) := (pow_add 2 _ _).symm
          _ ≤ 2 ^ 53 := Nat.pow_le_pow_right (by omega) (by omega)
      rcases le_total (52 - u.log2) p with hle | hle
      · refine ⟨52 - u.log2, hle, hbelow (by omega), Or.inl ?_⟩
        calc 2 ^ 52 = 2 ^ u.log2 * 2 ^ (52 - u.log2) := by
              rw [← pow_add]
              congr 1
              omega
          _ ≤ u * 2 ^ (52 - u.log2) := Nat.mul_le_mul_right _ (Nat.log2_self_le hpos.ne')
      · exact ⟨p, le_rfl, hbelow (by omega), Or.inr (Nat.sub_self p)⟩
  obtain ⟨hbound, hfull⟩ := hfull
  refine ⟨u * 2 ^ k + (p - k) * 2 ^ 52, ?_, ?_⟩
  · rw [infinityBits, specialExponent, exponentUnit]
    omega
  · have hplace : ((p - k : Nat) : Int) - 1074 = e - k := by omega
    have hk' : (2 : Rat) ^ k ≠ 0 := by positivity
    rw [ofMagnitude_add_mul hbound.le hfull, hplace, zpow_sub₀ two_ne_zero, zpow_natCast]
    push_cast
    rw [mul_assoc, mul_div_cancel₀ _ hk']

/-- Natural numbers of at most 53 bits lie on the grid. -/
theorem isMagnitude_natCast {n : Nat} (h : n < 2 ^ 53) : IsMagnitude n := by
  simpa using isMagnitude_mul_zpow h (e := 0) (by omega) (by omega)

/-- A number of the grid that has no room for a fraction is an integer of at most 53 significant
bits. -/
theorem IsMagnitude.exists_mul_pow {q : Rat} (h : IsMagnitude q) (hq : 2 ^ 52 ≤ q) :
    ∃ u k : Nat, u < 2 ^ 53 ∧ q = (u * 2 ^ k : Nat) := by
  obtain ⟨m, -, rfl⟩ := h
  have hplace : 0 ≤ place m := by
    by_contra hneg
    have hpow : (2 : Rat) ^ place m ≤ 2 ^ (-1 : Int) :=
      zpow_le_zpow_right₀ one_le_two (by omega)
    have hunits : (units m : Rat) < 2 ^ 53 := by exact_mod_cast units_lt m
    have hlt : ofMagnitude m < 2 ^ 52 := by
      calc ofMagnitude m ≤ units m * 2 ^ (-1 : Int) :=
            mul_le_mul_of_nonneg_left hpow (Nat.cast_nonneg _)
        _ < 2 ^ 53 * 2 ^ (-1 : Int) := mul_lt_mul_of_pos_right hunits (by positivity)
        _ = 2 ^ 52 := by norm_num
    exact hlt.not_ge hq
  obtain ⟨k, hk⟩ := Int.eq_ofNat_of_zero_le hplace
  refine ⟨units m, k, units_lt m, ?_⟩
  rw [ofMagnitude, hk, zpow_natCast]
  push_cast
  rfl

/-- An integer near to a number of the grid lies on the grid, if integers are their own. -/
theorem IsMagnitude.of_integer {q : Rat} (h : IsMagnitude q) {n : Nat}
    (hsmall : q < 2 ^ 52 → n < 2 ^ 53) (hkept : ∀ k : Nat, q = k → n = k) : IsMagnitude n := by
  rcases lt_or_ge q (2 ^ 52) with hq | hq
  · exact isMagnitude_natCast (hsmall hq)
  · obtain ⟨u, k, -, hint⟩ := h.exists_mul_pow hq
    rwa [hkept _ hint, ← hint]

/-- A finite number is rounded to an integer without loss, by any rule that keeps integers and the
sign and moves small numbers by one at most. -/
theorem value?_roundBy {rule : Rat → Int} (hint : ∀ n : Int, rule n = n)
    (hnear : ∀ q : Rat, |(rule q : Rat)| ≤ |q| + 1) {x : Float} {q : Rat}
    (h : value? x = some q) : value? (Scalar.roundBy rule x) = some (rule q : Rat) := by
  have hround : Scalar.roundBy rule x = nearest x (rule q : Rat) := by
    have hvalue : Scalar.value? x = some q := h
    rw [Scalar.roundBy, hvalue]
    rfl
  have hmagnitude : IsMagnitude ((rule q).natAbs : Nat) := by
    refine (isMagnitude_of_value? h).of_integer ?_ ?_
    · intro hq
      have habs : |(rule q : Rat)| < 2 ^ 53 := (hnear q).trans_lt (by linarith)
      rw [← Int.cast_abs, Int.abs_eq_natAbs, Int.cast_natCast] at habs
      exact_mod_cast habs
    · intro k hk
      rcases abs_choice q with hq | hq
      · rw [← hq, hk]
        exact_mod_cast congrArg Int.natAbs (hint k)
      · have hneg : q = ((-k : Int) : Rat) := by
          push_cast
          linarith
        rw [hneg, hint]
        exact Int.natAbs_neg k
  rw [hround]
  refine value?_nearest ?_ x
  rwa [← Int.cast_abs, Int.abs_eq_natAbs, Int.cast_natCast]

theorem value?_round {x : Float} {q : Rat} (h : value? x = some q) :
    value? (Scalar.round x) = some (Rounding.halfAway q : Rat) := by
  refine value?_roundBy Rounding.halfAway_intCast (fun r => ?_) h
  have hhalf := Rounding.abs_halfAway_sub_le r
  have htriangle := abs_sub_abs_le_abs_sub (Rounding.halfAway r : Rat) r
  linarith

theorem value?_trunc {x : Float} {q : Rat} (h : value? x = some q) :
    value? (Scalar.trunc x) = some (Rounding.towardZero q : Rat) :=
  value?_roundBy Rounding.towardZero_intCast
    (fun r => (Rounding.abs_towardZero_le r).trans (by linarith)) h

/-! ## Order -/

theorem compare_swap (a b : UnpackedFloat) : (a.compare b).map Ordering.swap = b.compare a := by
  have hthen (m n : Nat) (e f : Int) :
      ((compare e f).then (compare m n)).swap = (compare f e).then (compare n m) := by
    rw [Ordering.swap_then, ← Std.OrientedCmp.eq_swap, ← Std.OrientedCmp.eq_swap]
  rcases a with s | _ | s | ⟨s, m, e, hm⟩ <;> rcases b with t | _ | t | ⟨t, n, f, hn⟩
  all_goals try cases s
  all_goals try cases t
  all_goals first | rfl | (simp only [UnpackedFloat.compare, Option.map_some, hthen])

theorem not_lt_of_le {x y : Float} (h : x ≤ y) : ¬ y < x := by
  have hle : (x.toModel.unpack.compare y.toModel.unpack).any (·.isLE) = true := of_decide_eq_true h
  intro hlt
  have hlt' : (y.toModel.unpack.compare x.toModel.unpack) == some .lt := of_decide_eq_true hlt
  rw [← compare_swap] at hlt'
  cases hcompare : x.toModel.unpack.compare y.toModel.unpack with
  | none => simp [hcompare] at hle
  | some o =>
    rw [hcompare] at hle hlt'
    cases o <;> simp at hle hlt'

instance instLawfulScalar : LawfulScalar Float where
  not_lt_of_le := not_lt_of_le
  one_le_one := by decide
  value?_ofInt {n} h := by
    refine value?_nearest ?_ 0
    rw [Int.abs_eq_natAbs] at h
    have hmagnitude : IsMagnitude (n.natAbs : Rat) := isMagnitude_natCast (by omega)
    rwa [Nat.cast_natAbs, Int.cast_abs] at hmagnitude
  value?_round := value?_round

end Binary64

end StyleFunctions
