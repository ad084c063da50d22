import StyleFunctions.Number.Grid

/-!
# Exact numbers

Rational numbers as scalars.  Arithmetic, rounding, powers of ten and the integer part of the
decimal logarithm are exact; functions with irrational values take the binary64 value nearest to
them, and zero where they have no value.
-/

namespace StyleFunctions.Exact

/-- The square root, exact for the squares of rationals. -/
def sqrt (q : Rat) : Rat :=
  match Grid.squareRoot? q with
  | some r => r
  | none => if q < 0 then 0 else Grid.sqrt q

/-- A number raised to a power, exact for integer exponents. -/
def pow (x y : Rat) : Rat :=
  if y.den = 1 then x ^ y.num else if x ≤ 0 then 0 else Grid.power x y

instance : Scalar Rat where
  numeral _ := inferInstance
  decLt := inferInstance
  decLe := inferInstance
  value? := some
  nearest _ q := q
  abs q := if q < 0 then -q else q
  sqrt := sqrt
  pow10 n := (10 : Rat) ^ n
  log10Floor := Rounding.log10Floor
  trig f q := (Grid.trig? f q).getD 0
  pow := pow

end StyleFunctions.Exact
