import StyleFunctions.Number.Rounding

/-!
# The numbers of a style sheet

Every formula of this library is written once, over a type of scalars.  Two types are scalars:
`Float`, the binary64 numbers that a style sheet computes with, and `Rat`, on which the same
formulas are read as exact arithmetic.

* `Scalar` — arithmetic and order, and the two maps that tie a scalar to exact numbers:
  `value?`, its exact value when it has one, and `nearest`, the scalar nearest to a rational.
* `trunc`, `floor`, `ceil`, `round`, `remainder` and `toIntIn` follow from these two maps.
* `max`, `min` and `clampUnit` say what becomes of a scalar that is not a number.
-/

namespace StyleFunctions

/-- The trigonometric functions and their inverses. -/
inductive Trig
  | sin | cos | tan | asin | acos | atan
  deriving DecidableEq, Repr

/-- A type of numbers that style-sheet formulas can be evaluated in. -/
class Scalar (α : Type) extends
    Add α, Sub α, Mul α, Div α, Neg α, LT α, LE α, BEq α, OfScientific α where
  /-- Natural numbers can be written as numerals. -/
  numeral : (n : Nat) → OfNat α n
  /-- The order can be tested. -/
  decLt : (a b : α) → Decidable (a < b)
  /-- The weak order can be tested. -/
  decLe : (a b : α) → Decidable (a ≤ b)
  /-- The exact value, unless the scalar is infinite or not a number. -/
  value? : α → Option Rat
  /-- `nearest like q` is the scalar nearest to `q`; a zero takes the sign of `like`. -/
  nearest : α → Rat → α
  /-- The absolute value. -/
  abs : α → α
  /-- The square root. -/
  sqrt : α → α
  /-- The scalar nearest to a power of ten. -/
  pow10 : Nat → α
  /-- The integer part of the decimal logarithm of a positive scalar. -/
  log10Floor : α → Int
  /-- The trigonometric functions and their inverses, in radians. -/
  trig : Trig → α → α
  /-- A scalar raised to a power. -/
  pow : α → α → α

namespace Scalar

attribute [reducible, instance] decLt decLe

instance (priority := low) instNumeral {α : Type} [Scalar α] (n : Nat) : OfNat α n := numeral n

variable {α : Type} [Scalar α]

/-- A scalar is not a number when it differs from itself. -/
def isNaN (x : α) : Bool := !(x == x)

/-- A scalar is finite when it has an exact value. -/
def isFinite (x : α) : Bool := (value? x).isSome

/-- The larger of two scalars; one that is not a number gives way to the other. -/
def max (x y : α) : α := if x < y || isNaN x then y else x

/-- The smaller of two scalars; one that is not a number gives way to the other. -/
def min (x y : α) : α := if y < x || isNaN x then y else x

/-- A scalar drawn into the unit interval; what is not a number becomes zero. -/
def clampUnit (x : α) : α := min (max x 0) 1

/-! ## Integers -/

/-- The scalar nearest to an integer. -/
def ofInt (n : Int) : α := nearest (0 : α) n

/-- A scalar rounded to an integer by a rule.  A zero keeps the sign of the scalar, and what
has no exact value stays as it is. -/
def roundBy (rule : Rat → Int) (x : α) : α :=
  match value? x with
  | none => x
  | some q => nearest x (rule q)

/-- The integer part. -/
def trunc (x : α) : α := roundBy Rounding.towardZero x

/-- The greatest integer that is not above. -/
def floor (x : α) : α := roundBy Rat.floor x

/-- The least integer that is not below. -/
def ceil (x : α) : α := roundBy Rat.ceil x

/-- The nearest integer, a half going away from zero. -/
def round (x : α) : α := roundBy Rounding.halfAway x

/-- The integer part as an integer between `lo` and `hi`.  Infinities go to the ends of the
range, and what is not a number to zero. -/
def toIntIn (lo hi : Int) (x : α) : Int :=
  match value? x with
  | some q => Rounding.saturate lo hi (Rounding.towardZero q)
  | none => if isNaN x then 0 else if x < 0 then lo else hi

/-- The integer part as a 64-bit signed integer. -/
def toInt64 (x : α) : Int := toIntIn Rounding.minInt64 Rounding.maxInt64 x

/-- The remainder of the division by a positive integer, with the sign of the dividend.  What
is infinite or not a number leaves no remainder that is a number. -/
def remainder (x : α) (m : Nat) : α :=
  match value? x with
  | none => x - x
  | some q => nearest x (q - m * Rounding.towardZero (q / m))

end Scalar

end StyleFunctions
