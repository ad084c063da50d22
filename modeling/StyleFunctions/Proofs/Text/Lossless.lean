import Mathlib.Tactic
import StyleFunctions.Proofs.Text.UrlEncoding

/-!
# What the two encodings write, and what they lose

Nothing is lost: texts are read back, so that different strings and different bytes have
different texts.  Nothing is written that a URL could take for one of its own signs.

* `InAlphabet` — texts of letters, digits, some marks, and percent signs with two digits behind
  them.  `Rules.inAlphabet_encode` says that encodings write nothing else.
* `toByteArray_utf8Bytes` — the bytes of a string are those of its UTF-8 form.
* `encode_form_eq_encode_plain_iff` — the two encodings part at the first blank or tilde.
* `encoders_lossless` — both encodings of strings and bytes, with their alphabets.
-/

namespace StyleFunctions.UrlEncoding

/-! ## Alphabets -/

/-- An upper-case hexadecimal digit. -/
def IsHexDigit (c : Char) : Prop := '0' ≤ c ∧ c ≤ '9' ∨ 'A' ≤ c ∧ c ≤ 'F'

/-- A text of ASCII letters and digits, of marks, and of percent signs that two hexadecimal
digits follow. -/
inductive InAlphabet (marks : List Char) : List Char → Prop
  | nil : InAlphabet marks []
  | own {c : Char} {rest : List Char} (h : c.isAlphanum = true ∨ c ∈ marks)
      (hrest : InAlphabet marks rest) : InAlphabet marks (c :: rest)
  | escaped {high low : Char} {rest : List Char} (hhigh : IsHexDigit high) (hlow : IsHexDigit low)
      (hrest : InAlphabet marks rest) : InAlphabet marks ('%' :: high :: low :: rest)

theorem isHexDigit_hexDigit {n : Nat} (h : n < 16) : IsHexDigit (hexDigit n) := by
  revert n
  unfold IsHexDigit
  decide

namespace Rules

variable {rules : Rules} {marks : List Char}

/-- Marks of a text: the ones of the rules, and the plus sign where it stands for a blank. -/
def Writes (rules : Rules) (marks : List Char) : Prop :=
  rules.marks ⊆ marks ∧ (rules.blankAsPlus = true → '+' ∈ marks)

theorem inAlphabet_encodeByte (h : rules.Writes marks) (b : UInt8) {rest : List Char}
    (hrest : InAlphabet marks rest) : InAlphabet marks (rules.encodeByte b ++ rest) := by
  have hb := b.toNat_lt
  rw [encodeByte]
  -- The byte stands for itself, is a blank written as a plus sign, or is escaped.
  split
  · rename_i hself
    rw [isUnreserved, Bool.or_eq_true, List.contains_iff_mem] at hself
    exact .own (hself.imp_right fun hmark => h.1 hmark) hrest
  · split
    · rename_i hblank
      rw [Bool.and_eq_true] at hblank
      exact .own (Or.inr (h.2 hblank.2)) hrest
    · exact .escaped (isHexDigit_hexDigit (by omega)) (isHexDigit_hexDigit (by omega)) hrest

/-- An encoding writes nothing outside its alphabet. -/
theorem inAlphabet_encode (h : rules.Writes marks) (bytes : List UInt8) :
    InAlphabet marks (rules.encode bytes) := by
  induction bytes with
  | nil => exact .nil
  | cons b rest ih =>
    rw [encode, List.flatMap_cons]
    exact inAlphabet_encodeByte h b ih

/-- Different bytes have different texts. -/
theorem encode_inj (h : rules.Unambiguous) {bytes others : List UInt8} :
    rules.encode bytes = rules.encode others ↔ bytes = others := by
  refine ⟨fun heq => ?_, congrArg rules.encode⟩
  have hread := congrArg rules.decode? heq
  rw [decode?_encode h, decode?_encode h] at hread
  exact Option.some.inj hread

end Rules

/-! ## Bytes of strings -/

/-- The bytes of a string are those of its UTF-8 form. -/
theorem toByteArray_utf8Bytes (s : String) : (utf8Bytes s).toByteArray = s.toByteArray :=
  String.utf8Encode_toList

theorem utf8Bytes_inj {s t : String} : utf8Bytes s = utf8Bytes t ↔ s = t := by
  rw [← List.toByteArray_inj, toByteArray_utf8Bytes, toByteArray_utf8Bytes, String.toByteArray_inj]

theorem mem_utf8Bytes_iff {s : String} {d : Char} (hd : d.toNat < 128) :
    UInt8.ofNat d.toNat ∈ utf8Bytes s ↔ d ∈ s.toList := by
  simp only [utf8Bytes, List.mem_flatMap, mem_utf8EncodeChar_iff hd, exists_eq_right]

/-! ## Where the encodings agree -/

/-- Bytes other than blank and tilde have one text in both encodings. -/
theorem encodeByte_form_eq_plain {b : UInt8} (hblank : b ≠ 32) (htilde : b ≠ 126) :
    form.encodeByte b = plain.encodeByte b := by
  have hchar (d : Char) (hd : b ≠ UInt8.ofNat d.toNat) : charOfByte b ≠ d := by
    rintro rfl
    exact hd (ofNat_toNat_charOfByte b).symm
  have hblank' : charOfByte b ≠ ' ' := hchar ' ' hblank
  have htilde' : charOfByte b ≠ '~' := hchar '~' htilde
  have hself : form.isUnreserved (charOfByte b) = plain.isUnreserved (charOfByte b) := by
    simp [Rules.isUnreserved, form, plain, htilde']
  simp only [Rules.encodeByte, hself, hblank', decide_false, Bool.false_and, Bool.false_eq_true,
    if_false]

/-- The two encodings write the same exactly where there is no blank and no tilde: at the first
of these one writes a mark and the other a percent sign. -/
theorem encode_form_eq_encode_plain_iff (bytes : List UInt8) :
    form.encode bytes = plain.encode bytes ↔ 32 ∉ bytes ∧ 126 ∉ bytes := by
  induction bytes with
  | nil => simp [Rules.encode]
  | cons b rest ih =>
    rw [Rules.encode, Rules.encode] at ih ⊢
    rw [List.flatMap_cons, List.flatMap_cons]
    by_cases hblank : b = 32
    · subst hblank
      have hform : form.encodeByte 32 = ['+'] := by decide
      have hplain : plain.encodeByte 32 = ['%', '2', '0'] := by decide
      simp [hform, hplain]
    · by_cases htilde : b = 126
      · subst htilde
        have hform : form.encodeByte 126 = ['%', '7', 'E'] := by decide
        have hplain : plain.encodeByte 126 = ['~'] := by decide
        simp [hform, hplain]
      · rw [encodeByte_form_eq_plain hblank htilde, List.append_cancel_left_eq, ih]
        simp [Ne.symm hblank, Ne.symm htilde]

/-! ## Both encodings -/

theorem encodeForm_inj {s t : String} : encodeForm s = encodeForm t ↔ s = t := by
  rw [encodeForm, encodeForm, String.ofList_inj, Rules.encode_inj Rules.unambiguous_form,
    utf8Bytes_inj]

theorem encodeBytes_inj {bytes others : List UInt8} :
    encodeBytes bytes = encodeBytes others ↔ bytes = others := by
  rw [encodeBytes, encodeBytes, String.ofList_inj, Rules.encode_inj Rules.unambiguous_plain]

/-- Both encodings keep to their alphabets and are read back as the bytes that went in, so that
no two strings, and no two lists of bytes, share a text.  A string has one text in both exactly
if it has neither a blank nor a tilde. -/
theorem encoders_lossless (s t : String) (bytes others : List UInt8) :
    (InAlphabet ['-', '_', '.', '+'] (encodeForm s).toList ∧
      form.decode? (encodeForm s).toList = some (utf8Bytes s)) ∧
    (InAlphabet ['-', '_', '.', '~'] (encodeBytes bytes).toList ∧
      plain.decode? (encodeBytes bytes).toList = some bytes) ∧
    (encodeForm s = encodeForm t ↔ s = t) ∧
    (encodeBytes bytes = encodeBytes others ↔ bytes = others) ∧
    (encodeForm s = encodeBytes (utf8Bytes s) ↔ ' ' ∉ s.toList ∧ '~' ∉ s.toList) := by
  have hform : form.Writes ['-', '_', '.', '+'] := ⟨by decide, fun _ => by decide⟩
  have hplain : plain.Writes ['-', '_', '.', '~'] := ⟨by decide, by decide⟩
  have hblank : 32 ∈ utf8Bytes s ↔ ' ' ∈ s.toList := mem_utf8Bytes_iff (d := ' ') (by decide)
  have htilde : 126 ∈ utf8Bytes s ↔ '~' ∈ s.toList := mem_utf8Bytes_iff (d := '~') (by decide)
  refine ⟨⟨?_, ?_⟩, ⟨?_, ?_⟩, encodeForm_inj, encodeBytes_inj, ?_⟩
  · rw [encodeForm, String.toList_ofList]
    exact Rules.inAlphabet_encode hform _
  · rw [encodeForm, String.toList_ofList]
    exact Rules.decode?_encode Rules.unambiguous_form _
  · rw [encodeBytes, String.toList_ofList]
    exact Rules.inAlphabet_encode hplain _
  · rw [encodeBytes, String.toList_ofList]
    exact Rules.decode?_encode Rules.unambiguous_plain _
  · rw [encodeForm, encodeBytes, String.ofList_inj, encode_form_eq_encode_plain_iff, hblank,
      htilde]

end StyleFunctions.UrlEncoding
