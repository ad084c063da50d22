import StyleFunctions.Color.Basic
import StyleFunctions.Css
import StyleFunctions.Number.Decimal

/-!
# Colours as text

* **Opaque colours** are written as hexadecimal digits (`hexText`), two for each channel, or one
  in compressed output where both are always the same.
* **Transparent colours** are written as decimal channels (`rgbaText`).
* **Digits read back**, six or three of them (`ofHex?`), give an opaque colour.
-/

namespace StyleFunctions

namespace Color

variable {α : Type} [Scalar α]

/-! ## Hexadecimal digits -/

/-- The value of a hexadecimal digit of either case. -/
def hexValue? (c : Char) : Option Nat :=
  if '0' ≤ c ∧ c ≤ '9' then some (c.toNat - '0'.toNat)
  else if 'a' ≤ c ∧ c ≤ 'f' then some (c.toNat - 'a'.toNat + 10)
  else if 'A' ≤ c ∧ c ≤ 'F' then some (c.toNat - 'A'.toNat + 10)
  else none

/-- The two digits of a byte. -/
def hexPair (byte : Nat) : List Char := [Nat.digitChar (byte / 16), Nat.digitChar (byte % 16)]

/-- The byte nearest to a channel. -/
def channelByte (x : α) : Nat := (Scalar.toIntIn 0 255 (Scalar.round x)).toNat

/-- The two digits of a channel. -/
def hexChannel (x : α) : List Char := hexPair (channelByte x)

/-- The six digits of a colour's channels. -/
def hexDigits (c : Color α) : List Char :=
  hexChannel c.red ++ hexChannel c.green ++ hexChannel c.blue

/-! ## Reading -/

/-- The scalar that two digits stand for. -/
def channelOfPair (high low : Nat) : α := Scalar.ofInt (16 * high + low : Nat)

/-- The colour that six hexadecimal digits stand for, or three that count twice each. -/
def ofHexDigits? (digits : List Char) : Option (Color α) :=
  match digits.mapM hexValue? with
  | some [r, r', g, g', b, b'] =>
    some ⟨channelOfPair r r', channelOfPair g g', channelOfPair b b', 1⟩
  | some [r, g, b] => some ⟨channelOfPair r r, channelOfPair g g, channelOfPair b b, 1⟩
  | _ => none

/-- The colour that a text of three or six hexadecimal digits stands for. -/
def ofHex? (text : String) : Option (Color α) := ofHexDigits? text.toList

/-! ## Writing -/

/-- One of each pair of digits, where every pair is of one digit. -/
def shortDigits? : List Char → Option (List Char)
  | [r, r', g, g', b, b'] => if r = r' ∧ g = g' ∧ b = b' then some [r, g, b] else none
  | _ => none

/-- The hexadecimal form of an opaque colour. -/
def hexText (c : Color α) (options : CssOptions) : String :=
  let digits := c.hexDigits
  String.ofList ('#' :: if options.compress then (shortDigits? digits).getD digits else digits)

/-- The hexadecimal form with the opacity as the first of four bytes. -/
def argbText (c : Color α) : String :=
  String.ofList ('#' :: (hexChannel (c.alpha * 255) ++ c.hexDigits))

/-- The decimal form of a transparent colour. -/
def rgbaText (c : Color α) (options : CssOptions) : String :=
  let parts := [Scalar.round c.red, Scalar.round c.green, Scalar.round c.blue, c.alpha]
  "rgba(" ++ String.intercalate options.comma (parts.map numberText) ++ ")"

/-- A colour in CSS. -/
def css (c : Color α) (options : CssOptions) : String :=
  if c.alpha < 1 then c.rgbaText options else c.hexText options

end Color

end StyleFunctions
