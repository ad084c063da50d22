import Mathlib.Tactic
import StyleFunctions.Text.Base64

/-!
# Base 64 read back

* `Base64.decode?_encode` — bytes are read back off their text, whether the last group is full
  or filled up with equals signs.
* `Base64.isTextChar_of_mem_encode` — the text holds digits and equals signs only.
-/

namespace StyleFunctions.Base64

/-! ## Digits -/

theorem value?_digit {n : Nat} (h : n < 64) : value? (digit n) = some n := by
  revert n
  decide

theorem digit_ne_equals {n : Nat} (h : n < 64) : digit n ≠ '=' := by
  revert n
  decide

/-! ## Groups of four characters -/

variable {x y z w : Nat}

theorem decode?_one_byte (hx : x < 64) (hy : y < 64) :
    decode? [digit x, digit y, '=', '='] = some [UInt8.ofNat (x * 4 + y / 16)] := by
  rw [decode?, value?_digit hx, value?_digit hy]
  rfl

theorem decode?_two_bytes (hx : x < 64) (hy : y < 64) (hz : z < 64) :
    decode? [digit x, digit y, digit z, '='] =
      some [UInt8.ofNat (x * 4 + y / 16), UInt8.ofNat (y % 16 * 16 + z / 4)] := by
  rw [decode?, value?_digit hx, value?_digit hy, value?_digit hz]
  · rfl
  · exact digit_ne_equals hz

/-- A group that does not end in an equals sign is full, also at the end of the text. -/
theorem decode?_three_bytes (hx : x < 64) (hy : y < 64) (hz : z < 64) (hw : w < 64)
    {rest : List Char} {bytes : List UInt8} (hrest : decode? rest = some bytes) :
    decode? (digit x :: digit y :: digit z :: digit w :: rest) =
      some (UInt8.ofNat (x * 4 + y / 16) :: UInt8.ofNat (y % 16 * 16 + z / 4) ::
        UInt8.ofNat (z % 4 * 64 + w) :: bytes) := by
  rw [decode?, value?_digit hx, value?_digit hy, value?_digit hz, value?_digit hw, hrest]
  · rfl
  · intro _ hpad
    exact absurd hpad (digit_ne_equals hw)
  · intro hpad
    exact absurd hpad (digit_ne_equals hw)

/-! ## Texts -/

/-- A byte made of the number of a byte is that byte. -/
theorem ofNat_eq {n : Nat} {b : UInt8} (h : n = b.toNat) : UInt8.ofNat n = b := by
  rw [h, UInt8.ofNat_toNat]

/-- Bytes are read back off their text. -/
theorem decode?_encode (bytes : List UInt8) : decode? (encode bytes) = some bytes := by
  induction bytes using encode.induct with
  | case1 => rfl
  | case2 a =>
    have ha := a.toNat_lt
    rw [encode, decode?_one_byte (by omega) (by omega), ofNat_eq (b := a) (by omega)]
  | case3 a b =>
    have ha := a.toNat_lt
    have hb := b.toNat_lt
    rw [encode, decode?_two_bytes (by omega) (by omega) (by omega), ofNat_eq (b := a) (by omega),
      ofNat_eq (b := b) (by omega)]
  | case4 a b c rest ih =>
    have ha := a.toNat_lt
    have hb := b.toNat_lt
    have hc := c.toNat_lt
    rw [encode, decode?_three_bytes (by omega) (by omega) (by omega) (by omega) ih,
      ofNat_eq (b := a) (by omega), ofNat_eq (b := b) (by omega), ofNat_eq (b := c) (by omega)]

/-- A character that occurs in texts: a digit or an equals sign. -/
def IsTextChar (c : Char) : Prop := c = '=' ∨ ∃ n < 64, c = digit n

theorem isTextChar_equals : IsTextChar '=' := Or.inl rfl

theorem isTextChar_digit {n : Nat} (h : n < 64) : IsTextChar (digit n) := Or.inr ⟨n, h, rfl⟩

theorem isTextChar_of_mem_encode (bytes : List UInt8) : ∀ c ∈ encode bytes, IsTextChar c := by
  induction bytes using encode.induct with
  | case1 => simp [encode]
  | case2 a =>
    have ha := a.toNat_lt
    simp only [encode, List.forall_mem_cons]
    exact ⟨isTextChar_digit (by omega), isTextChar_digit (by omega), isTextChar_equals,
      isTextChar_equals, by simp⟩
  | case3 a b =>
    have ha := a.toNat_lt
    have hb := b.toNat_lt
    simp only [encode, List.forall_mem_cons]
    exact ⟨isTextChar_digit (by omega), isTextChar_digit (by omega), isTextChar_digit (by omega),
      isTextChar_equals, by simp⟩
  | case4 a b c rest ih =>
    have ha := a.toNat_lt
    have hb := b.toNat_lt
    have hc := c.toNat_lt
    simp only [encode, List.forall_mem_cons]
    exact ⟨isTextChar_digit (by omega), isTextChar_digit (by omega), isTextChar_digit (by omega),
      isTextChar_digit (by omega), ih⟩

end StyleFunctions.Base64
