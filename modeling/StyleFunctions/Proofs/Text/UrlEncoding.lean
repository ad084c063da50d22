import Mathlib.Tactic
import StyleFunctions.Text.UrlEncoding

/-!
# Percent encoding read back

Rules that give neither the percent sign nor, where it stands for a blank, the plus sign a
second meaning (`Rules.Unambiguous`) lose nothing: `Rules.decode?_encode`.  What they write is
unreserved, a plus sign or a percent sign (`Rules.isTextChar_of_mem_encode`).
-/

namespace StyleFunctions.UrlEncoding

/-! ## Digits and characters of bytes -/

theorem hexValue?_hexDigit {n : Nat} (h : n < 16) : hexValue? (hexDigit n) = some n := by
  revert n
  decide

theorem isAlphanum_hexDigit {n : Nat} (h : n < 16) : (hexDigit n).isAlphanum = true := by
  revert n
  decide

theorem toNat_charOfByte (b : UInt8) : (charOfByte b).toNat = b.toNat := by
  have hb := b.toNat_lt
  have hvalid : b.toNat.isValidChar := Or.inl (by omega)
  rw [charOfByte, Char.ofNat, dif_pos hvalid]
  rfl

theorem ofNat_toNat_charOfByte (b : UInt8) : UInt8.ofNat (charOfByte b).toNat = b := by
  rw [toNat_charOfByte, UInt8.ofNat_toNat]

/-- A property of all bytes, checked value by value. -/
theorem forall_byte {P : UInt8 → Prop} (h : ∀ n < 256, P (UInt8.ofNat n)) (b : UInt8) : P b := by
  rw [← UInt8.ofNat_toNat (x := b)]
  exact h b.toNat b.toNat_lt

/-- A character below 128 is one byte. -/
theorem utf8EncodeChar_of_lt {c : Char} (h : c.toNat < 128) :
    String.utf8EncodeChar c = [UInt8.ofNat c.toNat] := by
  have hle : c.val.toNat ≤ 127 := Nat.le_of_lt_succ h
  rw [String.utf8EncodeChar, if_pos hle]
  rfl

/-- Other characters have no byte below 128. -/
theorem le_of_mem_utf8EncodeChar {c : Char} (h : 128 ≤ c.toNat) :
    ∀ b ∈ String.utf8EncodeChar c, 128 ≤ b.toNat := by
  have hlt : ¬ c.val.toNat ≤ 127 := Nat.not_le_of_lt h
  rw [String.utf8EncodeChar, if_neg hlt]
  split
  · simp [UInt8.toNat_ofNat']
    omega
  · split
    · simp [UInt8.toNat_ofNat']
      omega
    · simp [UInt8.toNat_ofNat']
      omega

theorem charOfByte_ofNat {c : Char} (h : c.toNat < 128) :
    charOfByte (UInt8.ofNat c.toNat) = c := by
  rw [charOfByte, UInt8.toNat_ofNat', Nat.mod_eq_of_lt (by omega), Char.ofNat_toNat]

/-- The byte of a character below 128 occurs in that character only. -/
theorem mem_utf8EncodeChar_iff {c d : Char} (hd : d.toNat < 128) :
    UInt8.ofNat d.toNat ∈ String.utf8EncodeChar c ↔ c = d := by
  constructor
  · intro hmem
    by_cases hc : c.toNat < 128
    · rw [utf8EncodeChar_of_lt hc, List.mem_singleton] at hmem
      rw [← charOfByte_ofNat hc, ← hmem, charOfByte_ofNat hd]
    · have hle := le_of_mem_utf8EncodeChar (not_lt.1 hc) _ hmem
      rw [UInt8.toNat_ofNat', Nat.mod_eq_of_lt (by omega)] at hle
      omega
  · rintro rfl
    rw [utf8EncodeChar_of_lt hd]
    exact List.mem_singleton_self _

namespace Rules

variable {rules : Rules}

/-- The signs that the encoding gives a meaning do not stand for themselves. -/
structure Unambiguous (rules : Rules) : Prop where
  percent : '%' ∉ rules.marks
  plus : rules.blankAsPlus = true → '+' ∉ rules.marks

theorem unambiguous_form : form.Unambiguous := ⟨by decide, by decide⟩

theorem unambiguous_plain : plain.Unambiguous := ⟨by decide, by decide⟩

theorem Unambiguous.not_isUnreserved_percent (h : rules.Unambiguous) :
    rules.isUnreserved '%' = false := by
  have hletter : '%'.isAlphanum = false := by decide
  simp [isUnreserved, hletter, h.percent]

theorem Unambiguous.not_isUnreserved_plus (h : rules.Unambiguous)
    (hplus : rules.blankAsPlus = true) : rules.isUnreserved '+' = false := by
  have hletter : '+'.isAlphanum = false := by decide
  simp [isUnreserved, hletter, h.plus hplus]

/-! ## One byte -/

/-- Only a percent sign starts an escape. -/
theorem decode?_cons_of_ne {c : Char} (hc : c ≠ '%') (rest : List Char) :
    rules.decode? (c :: rest) =
      if rules.isUnreserved c then (rules.decode? rest).map (UInt8.ofNat c.toNat :: ·)
      else if c = '+' && rules.blankAsPlus then (rules.decode? rest).map (32 :: ·)
      else none := by
  rw [decode?]
  intro _ _ _ h
  exact absurd h hc

theorem decode?_escape (b : UInt8) (rest : List Char) :
    rules.decode? (escape b ++ rest) = (rules.decode? rest).map (b :: ·) := by
  have hb := b.toNat_lt
  have hbyte : 16 * (b.toNat / 16) + b.toNat % 16 = b.toNat := by omega
  rw [escape, List.cons_append, List.cons_append, List.cons_append, List.nil_append, decode?,
    hexValue?_hexDigit (by omega), hexValue?_hexDigit (by omega)]
  cases rules.decode? rest with
  | none => rfl
  | some bytes =>
    change some (UInt8.ofNat (16 * (b.toNat / 16) + b.toNat % 16) :: bytes) = some (b :: bytes)
    rw [hbyte, UInt8.ofNat_toNat]

/-- The text of a byte is read as that byte, whatever follows. -/
theorem decode?_encodeByte (h : rules.Unambiguous) (b : UInt8) (rest : List Char) :
    rules.decode? (rules.encodeByte b ++ rest) = (rules.decode? rest).map (b :: ·) := by
  rw [encodeByte]
  -- The byte stands for itself, is a blank written as a plus sign, or is escaped.
  split
  · rename_i hself
    have hne : charOfByte b ≠ '%' := by
      intro heq
      rw [heq, h.not_isUnreserved_percent] at hself
      cases hself
    rw [List.singleton_append, decode?_cons_of_ne hne, if_pos hself, ofNat_toNat_charOfByte]
  · split
    · rename_i hblank
      obtain ⟨hchar, hplus⟩ : charOfByte b = ' ' ∧ rules.blankAsPlus = true := by
        simpa using hblank
      have hbyte : b = 32 := by
        rw [← ofNat_toNat_charOfByte b, hchar]
        rfl
      rw [List.singleton_append, decode?_cons_of_ne (by decide),
        if_neg (by simp [h.not_isUnreserved_plus hplus]), if_pos (by simp [hplus]), hbyte]
    · exact decode?_escape b rest

/-! ## Texts -/

/-- Bytes are read back off their text. -/
theorem decode?_encode (h : rules.Unambiguous) (bytes : List UInt8) :
    rules.decode? (rules.encode bytes) = some bytes := by
  induction bytes with
  | nil => simp [encode, decode?]
  | cons b rest ih =>
    rw [encode] at ih
    rw [encode, List.flatMap_cons, decode?_encodeByte h, ih]
    rfl

/-- A character that occurs in texts. -/
def IsTextChar (rules : Rules) (c : Char) : Prop :=
  rules.isUnreserved c = true ∨ c = '%' ∨ c = '+' ∧ rules.blankAsPlus = true

theorem isTextChar_hexDigit {n : Nat} (h : n < 16) : rules.IsTextChar (hexDigit n) :=
  Or.inl (by rw [isUnreserved, isAlphanum_hexDigit h, Bool.true_or])

theorem isTextChar_of_mem_encodeByte (b : UInt8) :
    ∀ c ∈ rules.encodeByte b, rules.IsTextChar c := by
  have hb := b.toNat_lt
  rw [encodeByte]
  split
  · rename_i hself
    exact List.forall_mem_singleton.2 (Or.inl hself)
  · split
    · rename_i hblank
      obtain ⟨-, hplus⟩ : charOfByte b = ' ' ∧ rules.blankAsPlus = true := by
        simpa using hblank
      exact List.forall_mem_singleton.2 (Or.inr (Or.inr ⟨rfl, hplus⟩))
    · simp only [escape, List.forall_mem_cons]
      exact ⟨Or.inr (Or.inl rfl), isTextChar_hexDigit (by omega), isTextChar_hexDigit (by omega),
        by simp⟩

theorem isTextChar_of_mem_encode (bytes : List UInt8) :
    ∀ c ∈ rules.encode bytes, rules.IsTextChar c := by
  intro c hc
  obtain ⟨b, -, hb⟩ := List.mem_flatMap.1 hc
  exact isTextChar_of_mem_encodeByte b c hb

end Rules

end StyleFunctions.UrlEncoding
