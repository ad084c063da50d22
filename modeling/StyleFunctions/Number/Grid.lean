import StyleFunctions.Number.Elementary

/-!
# The binary64 grid

The values that binary64 numbers can have: integer multiples of a power of two with at most 53
significant bits and no unit below `2 ^ (-1074)`.  The exponent has no upper limit here; what
lies beyond the range becomes infinite only when it is packed into a number.

* `round` is the nearest value of the grid, a tie going to the even significand.
* `trig?`, `sqrt`, `log10Floor` and `power` round elementary functions to the grid.  An
  algebraic result can lie on the grid or half-way between two of its values, where no
  enclosure decides, and is computed exactly instead.
-/

namespace StyleFunctions.Grid

open Enclosure

/-! ## Rounding -/

/-- The exponent of the last place of the numbers of the size of `q`, for `q ≠ 0`. -/
def unitExponent (q : Rat) : Int :=
  max (Rounding.log2Floor (if q < 0 then -q else q) - 52) (-1074)

/-- The number of units nearest to `q`, a half going to the even neighbour. -/
def significand (q : Rat) : Int := Rounding.halfEven (q / (2 : Rat) ^ unitExponent q)

/-- The grid value nearest to `q`. -/
def round (q : Rat) : Rat :=
  if q = 0 then 0 else significand q * (2 : Rat) ^ unitExponent q

/-- The grid value nearest to a number that can be enclosed. -/
def roundEnclosed (enclose : Nat → Option (Rat × Rat)) : Rat := settle round enclose 7 160

/-- The two ends of an enclosure. -/
def ends {p : Nat} (e : Enclosure p) : Rat × Rat := (e.lower, e.upper)

/-! ## Elementary functions -/

/-- A trigonometric function; the inverse sine and cosine have values up to one in size only. -/
def trig? (f : Trig) (q : Rat) : Option Rat :=
  match f with
  | .sin => some (roundEnclosed fun p => some (ends (Elementary.sinCos p q).1))
  | .cos => some (roundEnclosed fun p => some (ends (Elementary.sinCos p q).2))
  | .tan => some (roundEnclosed fun p => (Elementary.tan p q).map ends)
  | .atan => some (roundEnclosed fun p => some (ends (Elementary.arctan p q)))
  | .asin =>
    if q < -1 || 1 < q then none
    else some (roundEnclosed fun p => some (ends (Elementary.arcsin p q)))
  | .acos =>
    if q < -1 || 1 < q then none
    else some (roundEnclosed fun p => some (ends (Elementary.arccos p q)))

/-- A quarter turn. -/
def halfPi : Rat := roundEnclosed fun p => some (ends (Elementary.halfPi p))

/-- The integer part of the decimal logarithm of a positive number, read off the logarithm's
grid value: just below a power of ten that value is already the next integer. -/
def log10Floor (q : Rat) : Int :=
  let n := Rounding.log10Floor q
  if (10 : Rat) ^ n = q then n
  else settle (fun r => (round r).floor) (fun p => (Elementary.log10 p q).map ends) 7 160

/-! ## Powers -/

/-- The square root of the square of a rational. -/
def squareRoot? (q : Rat) : Option Rat :=
  if q < 0 then none
  else
    let r := mkRat (Nat.sqrt q.num.natAbs) (Nat.sqrt q.den)
    if r * r = q then some r else none

/-- The square root of a number that is not negative. -/
def sqrt (q : Rat) : Rat :=
  match squareRoot? q with
  | some r => round r
  | none => roundEnclosed fun p => some (ends (Enclosure.sqrt (ofRat q : Enclosure p)))

/-- Writes `x ^ y` with an exponent of smaller denominator, as long as the base is a square. -/
def clearRoots : Nat → Rat → Rat → Rat × Rat
  | 0, x, y => (x, y)
  | n + 1, x, y =>
    if y.den % 2 = 0 then
      match squareRoot? x with
      | some r => clearRoots n r (2 * y)
      | none => (x, y)
    else (x, y)

/-- The exponent of a power of two. -/
def twoExponent? (x : Rat) : Option Int :=
  let e := Rounding.log2Floor x
  if (2 : Rat) ^ e = x then some e else none

/-- A power of two, with all that is far outside the binary64 range taken for two extremes. -/
def powerOfTwo (e : Int) : Rat :=
  if 2000 < e then (2 : Rat) ^ (2000 : Nat) else if e < -2000 then 0 else (2 : Rat) ^ e

/-- Bounds for `x ^ y = exp (y ln x)`, for positive `x`. -/
def powBounds (x y : Rat) (p : Nat) : Option (Rat × Rat) :=
  let extra := Nat.log2 (y.num.natAbs / y.den + 1) + 8
  let log : Enclosure (p + extra) := Elementary.ln (p + extra) x
  let t : Enclosure p := coarsen extra ((scale y.num log).divNat y.den)
  if 1100 < t.lower then some (powerOfTwo 2000, powerOfTwo 2000)
  else if t.upper < -1100 then some (0, 0)
  else some (Elementary.expBounds t)

/-- A positive number raised to a power.  Small integer powers and powers of powers of two are
exact before they are rounded; no other power lies half-way between grid values. -/
def power (x y : Rat) : Rat :=
  let (x, y) := clearRoots (Nat.log2 y.den) x y
  if y.den = 1 && y.num.natAbs ≤ 64 then round (x ^ y.num)
  else
    match y.den, twoExponent? x with
    | 1, some e => round (powerOfTwo (e * y.num))
    | _, _ => roundEnclosed (powBounds x y)

end StyleFunctions.Grid
