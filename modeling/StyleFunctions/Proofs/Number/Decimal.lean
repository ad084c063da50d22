import Mathlib.Data.List.DropRight
import Mathlib.Tactic
import StyleFunctions.Number.Decimal
import StyleFunctions.Proofs.Number.Exact
import StyleFunctions.Proofs.Number.Rounding

/-!
# Canonical decimal text

The text of a number has three parts: a sign, the digits of a whole number, and digits after a
point.  `Numeral` holds such parts, `Numeral.value` is the number that they denote, and
`Numeral.ofChars` finds them in a text.

* `Numeral.IsCanonical` — no digit is superfluous: no zero leads the whole part unless it is all
  of it, and none ends the fraction.
* `Numeral.ofUnits` — the parts for a count of the smallest unit.  They are canonical
  (`Numeral.isCanonical_ofUnits`), denote the count (`Numeral.value_ofUnits`), and are what is
  written (`Numeral.chars_ofUnits`).
* `tidied_fixedText` — the same text comes from the one with all decimal places, when zeros at
  its end, a bare point and the sign of a zero are dropped.
* `numberText_canonical` — what the text of an exact number is, and which numbers share one.
-/

namespace StyleFunctions

namespace Decimal

/-! ## Digits of whole numbers -/

theorem ne_of_isDigit {c d : Char} (hc : c.isDigit = true) (hd : d.isDigit = false) : c ≠ d := by
  rintro rfl
  rw [hc] at hd
  cases hd

theorem isDigit_of_mem_naturalDigits {n : Nat} {c : Char} (h : c ∈ naturalDigits n) :
    c.isDigit = true :=
  Nat.isDigit_of_mem_toDigits (by omega) (by omega) h

theorem naturalDigits_ne_nil (n : Nat) : naturalDigits n ≠ [] := Nat.toDigits_ne_nil

theorem ofDigitChars_naturalDigits (n : Nat) : Nat.ofDigitChars 10 (naturalDigits n) 0 = n :=
  Nat.ofDigitChars_ten_toDigits

/-- Only zero itself is written with a zero in front. -/
theorem naturalDigits_of_head?_eq {n : Nat} (h : (naturalDigits n).head? = some '0') :
    naturalDigits n = ['0'] := by
  induction n using Nat.strong_induction_on with
  | h n ih =>
    rw [naturalDigits, Nat.toDigits_eq_if (by omega)] at h ⊢
    by_cases hlt : n < 10
    · rw [if_pos hlt] at h ⊢
      rw [Option.some.inj h]
    · -- the first digit is that of the tenth part, which is not zero
      rw [if_neg hlt, List.head?_append_of_ne_nil _ Nat.toDigits_ne_nil] at h
      have htenth := ofDigitChars_naturalDigits (n / 10)
      rw [ih (n / 10) (by omega) h] at htenth
      have hzero : n / 10 = 0 := htenth.symm
      omega

/-! ## Digits after the point -/

/-- The number that digits after the point stand for. -/
def fractionValue (digits : List Char) : Rat :=
  (Nat.ofDigitChars 10 digits 0 : Rat) / 10 ^ digits.length

theorem fractionValue_cons {d : Nat} (h : d < 10) (digits : List Char) :
    fractionValue (d.digitChar :: digits) = (d + fractionValue digits) / 10 := by
  rw [fractionValue, fractionValue, Nat.ofDigitChars_cons_digitChar_of_lt_ten h,
    Nat.ofDigitChars_eq_ofDigitChars_zero, List.length_cons, pow_succ]
  push_cast
  field_simp
  ring

theorem fractionDigits_zero (places : Nat) : fractionDigits places 0 = [] := by
  cases places with
  | zero => rfl
  | succ places => exact if_pos rfl

theorem fractionDigits_succ {n : Nat} (h : n ≠ 0) (places : Nat) :
    fractionDigits (places + 1) n =
      Nat.digitChar (n / 10 ^ places) :: fractionDigits places (n % 10 ^ places) :=
  if_neg h

theorem div_pow_lt_ten {places n : Nat} (h : n < 10 ^ (places + 1)) : n / 10 ^ places < 10 := by
  rw [Nat.div_lt_iff_lt_mul (by positivity), mul_comm, ← pow_succ]
  exact h

theorem mod_pow_lt (places n : Nat) : n % 10 ^ places < 10 ^ places :=
  Nat.mod_lt n (by positivity)

/-- A count of units is so many whole ones and a rest. -/
theorem whole_add_rest (places n : Nat) :
    ((n / 10 ^ places : Nat) : Rat) + (n % 10 ^ places : Nat) / 10 ^ places = n / 10 ^ places := by
  have hsplit : (10 : Rat) ^ places * (n / 10 ^ places : Nat) + (n % 10 ^ places : Nat) = n := by
    exact_mod_cast Nat.div_add_mod n (10 ^ places)
  rw [← hsplit]
  field_simp

theorem fractionDigits_eq_nil_iff {places n : Nat} (h : n < 10 ^ places) :
    fractionDigits places n = [] ↔ n = 0 := by
  constructor
  · intro hnil
    by_contra hne
    cases places with
    | zero => omega
    | succ places =>
      rw [fractionDigits_succ hne] at hnil
      cases hnil
  · rintro rfl
    exact fractionDigits_zero places

theorem isDigit_of_mem_fractionDigits {places n : Nat} (h : n < 10 ^ places) {c : Char}
    (hc : c ∈ fractionDigits places n) : c.isDigit = true := by
  induction places generalizing n with
  | zero => cases hc
  | succ places ih =>
    rcases eq_or_ne n 0 with rfl | hne
    · rw [fractionDigits_zero] at hc
      cases hc
    · rw [fractionDigits_succ hne] at hc
      rcases List.mem_cons.1 hc with rfl | hrest
      · rw [Nat.isDigit_digitChar]
        exact decide_eq_true (div_pow_lt_ten h)
      · exact ih (mod_pow_lt places n) hrest

theorem length_fractionDigits_le (places n : Nat) : (fractionDigits places n).length ≤ places := by
  induction places generalizing n with
  | zero => exact le_rfl
  | succ places ih =>
    rcases eq_or_ne n 0 with rfl | hne
    · rw [fractionDigits_zero]
      exact Nat.zero_le _
    · rw [fractionDigits_succ hne, List.length_cons]
      exact Nat.succ_le_succ (ih _)

/-- The last digit that is written is not zero. -/
theorem getLast?_fractionDigits {places n : Nat} (h : n < 10 ^ places) :
    (fractionDigits places n).getLast? ≠ some '0' := by
  induction places generalizing n with
  | zero => exact nofun
  | succ places ih =>
    rcases eq_or_ne n 0 with rfl | hne
    · rw [fractionDigits_zero]
      exact nofun
    · rw [fractionDigits_succ hne]
      by_cases hrest : n % 10 ^ places = 0
      · -- this digit is the last one, and all of the number
        rw [hrest, fractionDigits_zero, List.getLast?_singleton, ne_eq, Option.some.injEq,
          Nat.digitChar_eq_zero]
        intro hzero
        exact hne (Nat.eq_zero_of_dvd_of_div_eq_zero (Nat.dvd_of_mod_eq_zero hrest) hzero)
      · have hnil : fractionDigits places (n % 10 ^ places) ≠ [] := fun heq =>
          hrest ((fractionDigits_eq_nil_iff (mod_pow_lt places n)).1 heq)
        rw [List.getLast?_cons_of_ne_nil hnil]
        exact ih (mod_pow_lt places n)

theorem fractionValue_fractionDigits {places n : Nat} (h : n < 10 ^ places) :
    fractionValue (fractionDigits places n) = n / 10 ^ places := by
  induction places generalizing n with
  | zero =>
    obtain rfl : n = 0 := Nat.lt_one_iff.1 h
    simp [fractionDigits, fractionValue, Nat.ofDigitChars_nil]
  | succ places ih =>
    rcases eq_or_ne n 0 with rfl | hne
    · simp [fractionDigits_zero, fractionValue, Nat.ofDigitChars_nil]
    · rw [fractionDigits_succ hne, fractionValue_cons (div_pow_lt_ten h),
        ih (mod_pow_lt places n), whole_add_rest, pow_succ, div_div]

/-! ## Numerals -/

/-- The parts of a decimal text. -/
structure Numeral where
  /-- Whether a minus sign leads. -/
  negative : Bool
  /-- The digits before the point. -/
  whole : List Char
  /-- The digits after the point; without them there is no point. -/
  fraction : List Char
  deriving DecidableEq, Repr

namespace Numeral

/-- The minus sign, if there is one. -/
def signChars (negative : Bool) : List Char := if negative then ['-'] else []

/-- The text of a numeral. -/
def chars (m : Numeral) : List Char :=
  signChars m.negative ++ (m.whole ++ if m.fraction.isEmpty then [] else '.' :: m.fraction)

/-- The number that a numeral denotes. -/
def value (m : Numeral) : Rat :=
  (if m.negative then -1 else 1) * (Nat.ofDigitChars 10 m.whole 0 + fractionValue m.fraction)

/-- The parts of a text without sign: what stands before its first point, and what behind. -/
def split (negative : Bool) (text : List Char) : Numeral :=
  ⟨negative, text.takeWhile (· != '.'), (text.dropWhile (· != '.')).drop 1⟩

/-- The parts of a text. -/
def ofChars : List Char → Numeral
  | '-' :: text => split true text
  | text => split false text

/-- A numeral of digits, none of them superfluous, and of at most `places` after the point. -/
structure IsCanonical (places : Nat) (m : Numeral) : Prop where
  whole_isDigit : ∀ c ∈ m.whole, c.isDigit = true
  whole_ne_nil : m.whole ≠ []
  whole_lead : m.whole.head? = some '0' → m.whole = ['0']
  fraction_isDigit : ∀ c ∈ m.fraction, c.isDigit = true
  fraction_length : m.fraction.length ≤ places
  fraction_last : m.fraction.getLast? ≠ some '0'

variable {places : Nat}

theorem split_append {negative : Bool} {whole fraction : List Char}
    (h : ∀ c ∈ whole, c.isDigit = true) :
    split negative (whole ++ if fraction.isEmpty then [] else '.' :: fraction) =
      ⟨negative, whole, fraction⟩ := by
  have hpoint : ∀ c ∈ whole, (c != '.') = true := fun c hc =>
    bne_iff_ne.2 (ne_of_isDigit (h c hc) (by decide))
  rw [split, List.takeWhile_append_of_pos hpoint, List.dropWhile_append_of_pos hpoint]
  cases fraction with
  | nil => simp
  | cons c rest => simp

/-- The parts of a canonical numeral are found in its text. -/
theorem ofChars_chars {m : Numeral} (h : m.IsCanonical places) : ofChars m.chars = m := by
  obtain ⟨negative, whole, fraction⟩ := m
  cases negative with
  | true => exact split_append h.whole_isDigit
  | false =>
    obtain ⟨c, rest, rfl⟩ := List.exists_cons_of_ne_nil h.whole_ne_nil
    have hne : c ≠ '-' := ne_of_isDigit (h.whole_isDigit c List.mem_cons_self) (by decide)
    have hsplit : ofChars (chars ⟨false, c :: rest, fraction⟩) =
        split false (c :: rest ++ if fraction.isEmpty then [] else '.' :: fraction) := by
      change ofChars (c :: (rest ++ _)) = _
      rw [ofChars]
      · rfl
      · exact fun _ heq => hne (List.cons.inj heq).1
    rw [hsplit, split_append h.whole_isDigit]

/-- The only sign of a canonical numeral is the one in front. -/
theorem mem_chars_iff {m : Numeral} (h : m.IsCanonical places) :
    '-' ∈ m.chars ↔ m.negative = true := by
  have hdigits {l : List Char} (hl : ∀ c ∈ l, c.isDigit = true) : '-' ∉ l := fun hmem =>
    ne_of_isDigit (hl _ hmem) (by decide) rfl
  have hwhole := hdigits h.whole_isDigit
  have hfraction := hdigits h.fraction_isDigit
  have htail : '-' ∉ if m.fraction.isEmpty then [] else '.' :: m.fraction := by
    split <;> simp [hfraction]
  rw [chars, List.mem_append, List.mem_append, or_iff_left (not_or.2 ⟨hwhole, htail⟩)]
  cases m.negative <;> simp [signChars]

/-! ### Counts of the smallest unit -/

/-- The parts of the text of `n / 10 ^ places`. -/
def ofUnits (places : Nat) (n : Int) : Numeral :=
  ⟨decide (n < 0), naturalDigits (n.natAbs / 10 ^ places),
    fractionDigits places (n.natAbs % 10 ^ places)⟩

theorem chars_ofUnits (places : Nat) (n : Int) :
    (ofUnits places n).chars = signedText places n := by
  rw [signedText, chars, signChars, ofUnits]
  by_cases hn : n < 0
  · rw [if_pos hn, if_pos (decide_eq_true hn)]
    rfl
  · rw [if_neg hn, if_neg (by simpa using hn)]
    rfl

theorem isCanonical_ofUnits (places : Nat) (n : Int) : (ofUnits places n).IsCanonical places where
  whole_isDigit _ hc := isDigit_of_mem_naturalDigits hc
  whole_ne_nil := naturalDigits_ne_nil _
  whole_lead h := naturalDigits_of_head?_eq h
  fraction_isDigit _ hc := isDigit_of_mem_fractionDigits (mod_pow_lt _ _) hc
  fraction_length := length_fractionDigits_le _ _
  fraction_last := getLast?_fractionDigits (mod_pow_lt _ _)

theorem value_ofUnits (places : Nat) (n : Int) : (ofUnits places n).value = n / 10 ^ places := by
  rw [value, ofUnits]
  dsimp only
  rw [ofDigitChars_naturalDigits, fractionValue_fractionDigits (mod_pow_lt _ _), whole_add_rest,
    Nat.cast_natAbs, Int.cast_abs]
  rcases lt_or_ge n 0 with hn | hn
  · have hcast : (n : Rat) < 0 := by exact_mod_cast hn
    rw [if_pos (decide_eq_true hn), abs_of_neg hcast]
    ring
  · have hcast : (0 : Rat) ≤ n := by exact_mod_cast hn
    rw [if_neg (by simpa using hn), abs_of_nonneg hcast, one_mul]

theorem value_lt_zero_iff (places : Nat) (n : Int) :
    (ofUnits places n).value < 0 ↔ (ofUnits places n).negative = true := by
  have hpow : (0 : Rat) < 10 ^ places := by positivity
  rw [value_ofUnits, div_lt_iff₀ hpow, zero_mul, ofUnits, decide_eq_true_eq]
  exact Int.cast_lt_zero

end Numeral

/-! ## The text with all places -/

/-- The digits after the point of `n / 10 ^ places`, zeros at the end included. -/
def fixedDigits : Nat → Nat → List Char
  | 0, _ => []
  | places + 1, n =>
    Nat.digitChar (n / 10 ^ places) :: fixedDigits places (n % 10 ^ places)

/-- The text of `n / 10 ^ places` with all places, and with a sign where one is asked for. -/
def fixedText (negative : Bool) (places n : Nat) : List Char :=
  Numeral.signChars negative ++ naturalDigits (n / 10 ^ places) ++
    '.' :: fixedDigits places (n % 10 ^ places)

/-- A text without the zeros at its end, and then without the points there. -/
def trimmed (text : List Char) : List Char := (text.rdropWhile (· == '0')).rdropWhile (· == '.')

/-- A trimmed text, a zero losing its sign. -/
def tidied (text : List Char) : List Char :=
  if trimmed text = ['-', '0'] then ['0'] else trimmed text

theorem rdropWhile_append_replicate (text : List Char) (c : Char) (k : Nat) :
    (text ++ List.replicate k c).rdropWhile (· == c) = text.rdropWhile (· == c) := by
  induction k with
  | zero => rw [List.replicate_zero, List.append_nil]
  | succ k ih =>
    rw [List.replicate_succ', ← List.append_assoc, List.rdropWhile_concat_pos _ _ _ (by simp), ih]

/-- A text that ends in another character keeps its end. -/
theorem rdropWhile_append {tail : List Char} {c : Char} (hnil : tail ≠ [])
    (hlast : tail.getLast? ≠ some c) (text : List Char) :
    (text ++ tail).rdropWhile (· == c) = text ++ tail := by
  rw [List.rdropWhile_eq_self_iff]
  intro hne heq
  rw [List.getLast_append_of_ne_nil hne hnil, beq_iff_eq] at heq
  exact hlast (by rw [List.getLast?_eq_some_getLast hnil, heq])

theorem exists_fixedDigits_eq {places n : Nat} (h : n < 10 ^ places) :
    ∃ k, fixedDigits places n = fractionDigits places n ++ List.replicate k '0' := by
  induction places generalizing n with
  | zero => exact ⟨0, rfl⟩
  | succ places ih =>
    obtain ⟨k, hk⟩ := ih (mod_pow_lt places n)
    rw [fixedDigits, hk]
    rcases eq_or_ne n 0 with rfl | hne
    · refine ⟨k + 1, ?_⟩
      rw [Nat.zero_div, Nat.zero_mod, fractionDigits_zero, fractionDigits_zero]
      rfl
    · refine ⟨k, ?_⟩
      rw [fractionDigits_succ hne, List.cons_append]

theorem getLast?_ne_of_isDigit {text : List Char} {d : Char} (h : ∀ c ∈ text, c.isDigit = true)
    (hd : d.isDigit = false) : text.getLast? ≠ some d := fun heq =>
  ne_of_isDigit (h d (List.mem_of_getLast? heq)) hd rfl

/-- Trimming takes nothing from the whole part, and from the fraction its zeros at the end. -/
theorem trimmed_fixedText (negative : Bool) (places n : Nat) :
    trimmed (fixedText negative places n) =
      Numeral.signChars negative ++ unsignedText places n := by
  have hrest := mod_pow_lt places n
  obtain ⟨k, hk⟩ := exists_fixedDigits_eq hrest
  have hzeros : ('.' :: fractionDigits places (n % 10 ^ places)).getLast? ≠ some '0' := by
    rw [List.getLast?_cons]
    have hlast := getLast?_fractionDigits hrest
    cases heq : (fractionDigits places (n % 10 ^ places)).getLast? with
    | none => simp
    | some c => exact fun hc => hlast (heq.trans hc)
  have hwhole : (naturalDigits (n / 10 ^ places)).getLast? ≠ some '.' :=
    getLast?_ne_of_isDigit (fun _ => isDigit_of_mem_naturalDigits) (by decide)
  have hfraction : (fractionDigits places (n % 10 ^ places)).getLast? ≠ some '.' :=
    getLast?_ne_of_isDigit (fun _ => isDigit_of_mem_fractionDigits hrest) (by decide)
  have htext : unsignedText places n = naturalDigits (n / 10 ^ places) ++
      if (fractionDigits places (n % 10 ^ places)).isEmpty then []
      else '.' :: fractionDigits places (n % 10 ^ places) := rfl
  rw [trimmed, fixedText, hk, ← List.cons_append, ← List.append_assoc, rdropWhile_append_replicate,
    rdropWhile_append (List.cons_ne_nil _ _) hzeros, htext]
  -- the point is bare, and goes, exactly if no digit is left behind it
  cases hdigits : fractionDigits places (n % 10 ^ places) with
  | nil =>
    rw [List.rdropWhile_concat_pos _ _ _ (by simp),
      rdropWhile_append (naturalDigits_ne_nil _) hwhole]
    simp
  | cons d rest =>
    rw [hdigits, ← List.getLast?_cons_cons (a := '.')] at hfraction
    rw [rdropWhile_append (List.cons_ne_nil _ _) hfraction]
    simp

/-- Tidied up, the text with all places is the one that is written, also where a number below
zero has been rounded to zero. -/
theorem tidied_fixedText {negative : Bool} {n : Int} (h : n ≠ 0 → negative = decide (n < 0))
    (places : Nat) : tidied (fixedText negative places n.natAbs) = signedText places n := by
  have htrimmed := trimmed_fixedText negative places n.natAbs
  rcases eq_or_ne n 0 with rfl | hn
  · have hzero : unsignedText places 0 = ['0'] := by
      simp [unsignedText, naturalDigits, fractionDigits_zero]
    have hsigned : signedText places 0 = ['0'] := hzero
    rw [Int.natAbs_zero, hzero] at htrimmed
    rw [tidied, Int.natAbs_zero, htrimmed, hsigned]
    cases negative <;> rfl
  · have hchars : trimmed (fixedText negative places n.natAbs) =
        (Numeral.ofUnits places n).chars := by
      rw [htrimmed, h hn]
      rfl
    have hne : (Numeral.ofUnits places n).chars ≠ ['-', '0'] := by
      intro heq
      have hread := Numeral.ofChars_chars (Numeral.isCanonical_ofUnits places n)
      have hvalue := Numeral.value_ofUnits places n
      have hzero : (Numeral.ofChars ['-', '0']).value = 0 := by
        have hparts : Numeral.ofChars ['-', '0'] = ⟨true, ['0'], []⟩ := by decide
        rw [hparts, Numeral.value, fractionValue, Nat.ofDigitChars_cons, Nat.ofDigitChars_nil]
        norm_num
      rw [← hread, heq, hzero, eq_comm, div_eq_zero_iff] at hvalue
      rcases hvalue with hcast | hpow
      · exact hn (by exact_mod_cast hcast)
      · exact absurd hpow (by positivity)
    rw [tidied, hchars, if_neg hne, Numeral.chars_ofUnits]

/-! ## The text of an exact number -/

/-- A number as a count of the smallest unit that is written, a half going away from zero. -/
def units (x : Rat) : Int := Rounding.halfAway (x * 10 ^ places)

theorem units_div (n : Int) : units (n / 10 ^ places) = n := by
  rw [units, div_mul_cancel₀ _ (by norm_num [places]), Rounding.halfAway_intCast]

theorem toList_numberText (x : Rat) : (numberText x).toList = signedText places (units x) := by
  have hchars : chars x = exactText ((units x : Rat) / 10 ^ places) := by
    have hpow : (10 : Rat) ^ places = 100000000 := by norm_num [places]
    rw [units, hpow]
    rfl
  rw [numberText, String.toList_ofList, hchars, exactText,
    div_mul_cancel₀ _ (by norm_num [places]), Rounding.halfEven_intCast]

/-- The parts of the text of a number. -/
def written (x : Rat) : Numeral := Numeral.ofChars (numberText x).toList

theorem written_eq (x : Rat) : written x = Numeral.ofUnits places (units x) := by
  rw [written, toList_numberText, ← Numeral.chars_ofUnits,
    Numeral.ofChars_chars (Numeral.isCanonical_ofUnits places (units x))]

theorem numberText_eq_iff (x y : Rat) : numberText x = numberText y ↔ units x = units y := by
  constructor
  · intro heq
    have hvalue : (written x).value = (written y).value := by rw [written, heq, written]
    rw [written_eq, written_eq, Numeral.value_ofUnits, Numeral.value_ofUnits,
      div_left_inj' (by norm_num [places])] at hvalue
    exact_mod_cast hvalue
  · intro heq
    rw [← String.toList_inj, toList_numberText, toList_numberText, heq]

/-- A number and its count of units do not lie on different sides of zero. -/
theorem decide_neg_eq {x : Rat} (h : units x ≠ 0) : decide (x < 0) = decide (units x < 0) := by
  have hzero : units 0 = 0 := by
    have := units_div 0
    rwa [Int.cast_zero, zero_div] at this
  have hmono : Monotone units := fun p q hpq =>
    Rounding.halfAway_mono (mul_le_mul_of_nonneg_right hpq (by norm_num [places]))
  rcases lt_or_ge x 0 with hx | hx
  · have hle := hmono hx.le
    rw [decide_eq_true hx, decide_eq_true (by omega)]
  · have hle := hmono hx
    rw [decide_eq_false (not_lt.2 hx), decide_eq_false (by omega)]

/-- The text of a number is canonical and has at most eight digits after the point.  It denotes
the number rounded to eight places, a half going away from zero, and has a sign exactly if that
is below zero.  Numbers share a text exactly if they are rounded to the same count of units, and
the number that a text denotes has that text.  The text is the one with all eight places, tidied
up. -/
theorem numberText_canonical (x y : Rat) :
    ((written x).IsCanonical 8 ∧ (written x).chars = (numberText x).toList) ∧
    (Rounding.IsNearestAway (x * 10 ^ 8) (units x) ∧ (written x).value = units x / 10 ^ 8) ∧
    ('-' ∈ (numberText x).toList ↔ (written x).value < 0) ∧
    (numberText x = numberText y ↔ units x = units y) ∧
    numberText (written x).value = numberText x ∧
    (numberText x).toList = tidied (fixedText (decide (x < 0)) 8 (units x).natAbs) := by
  have hcanonical := Numeral.isCanonical_ofUnits places (units x)
  have hchars : (Numeral.ofUnits places (units x)).chars = (numberText x).toList := by
    rw [Numeral.chars_ofUnits, toList_numberText]
  rw [written_eq]
  refine ⟨⟨hcanonical, hchars⟩,
    ⟨Rounding.isNearestAway_halfAway _, Numeral.value_ofUnits places (units x)⟩, ?_,
    numberText_eq_iff x y, ?_, ?_⟩
  · rw [← hchars, Numeral.mem_chars_iff hcanonical, Numeral.value_lt_zero_iff]
  · rw [Numeral.value_ofUnits, numberText_eq_iff, units_div]
  · rw [toList_numberText]
    exact (tidied_fixedText decide_neg_eq places).symm

end Decimal

end StyleFunctions
