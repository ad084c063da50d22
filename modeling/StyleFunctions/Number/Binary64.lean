import StyleFunctions.Number.Grid

/-!
# Binary64 numbers

`Float` is the type of scalars that a style sheet computes with.  Sums, products, quotients and
square roots are the machine's.  All else goes through exact values: `value?` unpacks a number,
`pack` and `nearest` give the number nearest to an exact one, and `trig` and `pow` are the grid's
functions with the conventions for zeros, infinities and what is not a number.
-/

namespace StyleFunctions.Binary64

/-! ## Packing and unpacking -/

/-- The sign bit, above 11 bits of exponent and 52 of fraction. -/
def signBit : Nat := 0x8000000000000000

/-- The unit of the exponent in the bits of a number, and the lead of a significand. -/
def exponentUnit : Nat := 0x0010000000000000

/-- The exponent that marks what has no exact value. -/
def specialExponent : Nat := 2047

/-- Whether the sign bit is set. -/
def isNegative (x : Float) : Bool := decide (signBit ≤ x.toBits.toNat)

/-- The exact value of a finite number: its significand in units of its last place. -/
def value? (x : Float) : Option Rat :=
  let magnitude := x.toBits.toNat % signBit
  let exponent := magnitude / exponentUnit
  let fraction := magnitude % exponentUnit
  let units : Nat := if exponent = 0 then fraction else exponentUnit + fraction
  if exponent = specialExponent then none
  else
    let q := (units : Rat) * (2 : Rat) ^ ((Nat.max exponent 1 : Nat) - 1075 : Int)
    some (if isNegative x then -q else q)

/-- The magnitude bits of an infinity. -/
def infinityBits : Nat := specialExponent * exponentUnit

/-- The number with the given sign nearest to a magnitude.  Significand and exponent lie side by
side, so that a significand of 53 bits raises the exponent by itself. -/
def pack (negative : Bool) (q : Rat) : Float :=
  let magnitude : Nat :=
    if q = 0 then 0
    else (Grid.significand q).toNat + (Grid.unitExponent q + 1074).toNat * exponentUnit
  let sign : Nat := if negative then signBit else 0
  Float.ofBits (UInt64.ofNat (sign + Nat.min magnitude infinityBits))

/-- The number nearest to `q`, a zero taking the sign of `like`. -/
def nearest (like : Float) (q : Rat) : Float :=
  if q < 0 then pack true (-q) else if 0 < q then pack false q else pack (isNegative like) 0

/-- Positive infinity. -/
def infinity : Float := Float.ofBits (UInt64.ofNat infinityBits)

/-- The result that is not a number. -/
def nan : Float := 0 / 0

/-! ## Functions -/

/-- The number nearest to a power of ten. -/
def pow10 (n : Nat) : Float := if 308 < n then infinity else pack false ((10 : Rat) ^ n)

/-- The integer part of the decimal logarithm of a positive finite number. -/
def log10Floor (x : Float) : Int :=
  match value? x with
  | some q => Grid.log10Floor q
  | none => 0

/-- The trigonometric functions.  Of the infinities only the inverse tangent has a value, a
quarter turn. -/
def trig (f : Trig) (x : Float) : Float :=
  match value? x with
  | some q =>
    match Grid.trig? f q with
    | some r => nearest x r
    | none => nan
  | none =>
    if f = .atan && x == x then pack (isNegative x) Grid.halfPi else nan

/-- Whether a number is an odd integer. -/
def isOdd (q : Rat) : Bool := q.den = 1 && q.num % 2 = 1

/-- A number raised to a power.  One to any power and anything to the power zero are one; a zero
or infinite base keeps its sign only for an odd exponent; a negative base has powers with
integer exponents only. -/
def pow (x y : Float) : Float :=
  if x == 1 || y == 0 then 1
  else if !(x == x) || !(y == y) then nan
  else
    match value? x, value? y with
    | some a, some b =>
      let negative := isNegative x && isOdd b
      if a = 0 then
        if b < 0 then (if negative then -infinity else infinity) else pack negative 0
      else if a < 0 then
        if b.den = 1 then pack negative (if a = -1 then 1 else Grid.power (-a) b) else nan
      else pack false (Grid.power a b)
    | none, some b =>
      let negative := isNegative x && isOdd b
      if b < 0 then pack negative 0 else if negative then -infinity else infinity
    | _, none =>
      if x == -1 then 1
      else if (1 < x.abs) == (0 < y) then infinity
      else 0

/-! ## The scalars of a style sheet -/

instance : Scalar Float where
  numeral _ := inferInstance
  decLt := inferInstance
  decLe := inferInstance
  value? := value?
  nearest := nearest
  abs := Float.abs
  sqrt := Float.sqrt
  pow10 := pow10
  log10Floor := log10Floor
  trig := trig
  pow := pow

end StyleFunctions.Binary64
