import StyleFunctions.Number.Scalar

/-!
# Decimal text of numbers

A number is written with at most eight decimal places, without zeros that carry no value and
without a sign on zero.  The text works on an integer count of the smallest unit, `10 ^ (-8)`:

* `unsignedText` and `signedText` write such a count, its quotient and remainder by `10 ^ 8`
  being the two sides of the point;
* `roundToUnit` first brings a scalar to that unit by scaling it up and down;
* `numberText` is the text of any scalar, infinite or not a number included.
-/

namespace StyleFunctions.Decimal

/-! ## Digits -/

/-- The digits of a natural number, without leading zeros. -/
def naturalDigits (n : Nat) : List Char := Nat.toDigits 10 n

/-- The digits after the point of `n / 10 ^ places`, for `n` below `10 ^ places`, up to the last
one that is not zero. -/
def fractionDigits : Nat → Nat → List Char
  | 0, _ => []
  | places + 1, n =>
    if n = 0 then []
    else
      Nat.digitChar (n / Nat.pow 10 places) :: fractionDigits places (n % Nat.pow 10 places)

/-- The text of `n / 10 ^ places`. -/
def unsignedText (places n : Nat) : List Char :=
  let fraction := fractionDigits places (n % Nat.pow 10 places)
  naturalDigits (n / Nat.pow 10 places) ++ (if fraction.isEmpty then [] else '.' :: fraction)

/-- The text of `n / 10 ^ places`, with a minus sign below zero. -/
def signedText (places : Nat) (n : Int) : List Char :=
  if n < 0 then '-' :: unsignedText places n.natAbs else unsignedText places n.natAbs

/-! ## Numbers -/

/-- The number of decimal places that are written. -/
def places : Nat := 8

/-- The text of an exact number, rounded to the written places; a half goes to the even
neighbour. -/
def exactText (q : Rat) : List Char :=
  signedText places (Rounding.halfEven (q * (10 : Rat) ^ places))

/-- What is written for a number without an exact value. -/
def specialText {α : Type} [Scalar α] (x : α) : List Char :=
  if Scalar.isNaN x then ['N', 'a', 'N']
  else if x < 0 then ['-', 'i', 'n', 'f'] else ['i', 'n', 'f']

/-- A scalar rounded to the written places by scaling up and down, a half going away from zero;
the scalar itself when it is too large to be scaled. -/
def roundToUnit {α : Type} [Scalar α] (x : α) : α :=
  let rounded := Scalar.round (x * 100000000) / 100000000
  if Scalar.isFinite rounded then rounded else x

/-- The characters of a number's text. -/
def chars {α : Type} [Scalar α] (x : α) : List Char :=
  if Scalar.isFinite x then
    match Scalar.value? (roundToUnit x) with
    | some q => exactText q
    | none => specialText x
  else specialText x

end StyleFunctions.Decimal

namespace StyleFunctions

/-- The text of a number in a style sheet. -/
def numberText {α : Type} [Scalar α] (x : α) : String := String.ofList (Decimal.chars x)

end StyleFunctions
