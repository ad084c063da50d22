/-!
# Rounding of rational numbers to integers

Style-sheet formulas leave the exact numbers at a few places only, and always by one of a few
rules.  `Rat.floor` and `Rat.ceil` are the library's own; this file adds the others:

* `towardZero` drops the fraction whatever the sign;
* `halfAway` and `halfEven` go to the nearest integer and differ in where a half goes;
* `saturate` draws an integer into a range, such as that of the 64-bit integers;
* `log2Floor` and `log10Floor` are the integer parts of two logarithms, exactly.
-/

namespace StyleFunctions.Rounding

/-- The integer part: the fraction is dropped whatever the sign. -/
def towardZero (q : Rat) : Int :=
  if q < 0 then q.ceil else q.floor

/-- The nearest integer, a half going away from zero. -/
def halfAway (q : Rat) : Int :=
  if q < 0 then -(-q + 1 / 2).floor else (q + 1 / 2).floor

/-- The nearest integer, a half going to the even neighbour. -/
def halfEven (q : Rat) : Int :=
  let below := q.floor
  let part := q - below
  if part < 1 / 2 then below
  else if 1 / 2 < part then below + 1
  else if below % 2 = 0 then below else below + 1

/-- An integer drawn into the range from `lo` to `hi`. -/
def saturate (lo hi n : Int) : Int :=
  if n < lo then lo else if hi < n then hi else n

/-- The smallest 64-bit signed integer. -/
def minInt64 : Int := -0x8000000000000000

/-- The largest 64-bit signed integer. -/
def maxInt64 : Int := 0x7FFFFFFFFFFFFFFF

/-! ## Logarithms of positive numbers -/

/-- The exponent `n` with `2 ^ n ≤ q < 2 ^ (n + 1)`, for positive `q`: the bit lengths of
numerator and denominator leave two candidates. -/
def log2Floor (q : Rat) : Int :=
  let n := (Nat.log2 q.num.natAbs : Int) - Nat.log2 q.den
  if (2 : Rat) ^ n ≤ q then n else n - 1

/-- The exponent `n` with `10 ^ n ≤ q < 10 ^ (n + 1)`, for positive `q`: the digit counts of
numerator and denominator leave two candidates. -/
def log10Floor (q : Rat) : Int :=
  let digits (n : Nat) : Int := (Nat.toDigits 10 n).length
  let n := digits q.num.natAbs - digits q.den
  if (10 : Rat) ^ n ≤ q then n else n - 1

end StyleFunctions.Rounding
