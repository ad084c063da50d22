/-!
# Percent encoding

Bytes as text for use in URLs.  A byte is written as itself when it is unreserved, and otherwise
as a percent sign and two hexadecimal digits.

* `form` is the encoding of strings: a blank becomes a plus sign.
* `plain` is the encoding of arbitrary bytes: a tilde stays as it is.
* `Rules.decode?` reads either encoding back.
-/

namespace StyleFunctions.UrlEncoding

/-- The rules in which encodings differ. -/
structure Rules where
  /-- Marks that are written as themselves, besides letters and digits. -/
  marks : List Char
  /-- Whether a blank is written as a plus sign. -/
  blankAsPlus : Bool
  deriving DecidableEq, Repr

/-- The encoding of form fields. -/
def form : Rules := ⟨['-', '_', '.'], true⟩

/-- The encoding of arbitrary data. -/
def plain : Rules := ⟨['-', '_', '.', '~'], false⟩

/-! ## Encoding -/

/-- A byte as a character below 256. -/
def charOfByte (b : UInt8) : Char := Char.ofNat b.toNat

/-- Whether a character is written as itself. -/
def Rules.isUnreserved (rules : Rules) (c : Char) : Bool :=
  c.isAlphanum || rules.marks.contains c

/-- The upper-case hexadecimal digit of a number below 16. -/
def hexDigit (n : Nat) : Char := (Nat.digitChar n).toUpper

/-- A percent sign and two digits. -/
def escape (b : UInt8) : List Char := ['%', hexDigit (b.toNat / 16), hexDigit (b.toNat % 16)]

/-- A byte as text. -/
def Rules.encodeByte (rules : Rules) (b : UInt8) : List Char :=
  let c := charOfByte b
  if rules.isUnreserved c then [c]
  else if c = ' ' && rules.blankAsPlus then ['+']
  else escape b

/-- Bytes as text. -/
def Rules.encode (rules : Rules) (bytes : List UInt8) : List Char :=
  bytes.flatMap rules.encodeByte

/-- The bytes of a string. -/
def utf8Bytes (s : String) : List UInt8 := s.toList.flatMap String.utf8EncodeChar

/-- The form encoding of a string. -/
def encodeForm (s : String) : String := String.ofList (form.encode (utf8Bytes s))

/-- The plain encoding of bytes. -/
def encodeBytes (bytes : List UInt8) : String := String.ofList (plain.encode bytes)

/-! ## Decoding -/

/-- The value of an upper-case hexadecimal digit. -/
def hexValue? (c : Char) : Option Nat :=
  if '0' ≤ c ∧ c ≤ '9' then some (c.toNat - '0'.toNat)
  else if 'A' ≤ c ∧ c ≤ 'F' then some (c.toNat - 'A'.toNat + 10)
  else none

/-- The bytes that a text stands for, unless it holds a character that no byte is written as. -/
def Rules.decode? (rules : Rules) : List Char → Option (List UInt8)
  | [] => some []
  | '%' :: high :: low :: rest => do
    let h ← hexValue? high
    let l ← hexValue? low
    return UInt8.ofNat (16 * h + l) :: (← rules.decode? rest)
  | c :: rest =>
    if rules.isUnreserved c then (rules.decode? rest).map (UInt8.ofNat c.toNat :: ·)
    else if c = '+' && rules.blankAsPlus then (rules.decode? rest).map (32 :: ·)
    else none

end StyleFunctions.UrlEncoding
