import StyleFunctions.Number.Enclosure
import StyleFunctions.Number.Scalar

/-!
# Elementary functions of rational numbers

Enclosures of `π` (`pi`), of the inverse tangent and its relatives (`arctan`, `arcsin`,
`arccos`), of sine, cosine and tangent (`sinCos`, `tan`), of logarithms (`ln`, `log10`) and of
the exponential function (`expBounds`).  Every function first reduces its argument, by an
identity that holds exactly, until a power series gains at least two binary places per term.
-/

namespace StyleFunctions.Elementary

open Enclosure

/-! ## Inverse tangent and π -/

/-- `arctan t` for `|t| ≤ 1/2`: the alternating series over the odd powers. -/
def arctanSmall {p : Nat} (t : Enclosure p) : Enclosure p :=
  series (fun _ => 1) (fun k => 2 * k + 1) (-(t * t)) (termCount p) 0 t

/-- `π = 16 arctan (1/5) - 4 arctan (1/239)`. -/
def pi (p : Nat) : Enclosure p :=
  scale 16 (arctanSmall (ofRat (1 / 5))) - scale 4 (arctanSmall (ofRat (1 / 239)))

/-- A quarter turn. -/
def halfPi (p : Nat) : Enclosure p := (pi p).divNat 2

/-- Half of an angle, by its tangent: `tan (a/2) = t / (1 + √(1 + t²))`. -/
def halveTangent {p : Nat} (t : Enclosure p) : Enclosure p :=
  divPos t (ofInt 1 + sqrt (ofInt 1 + t * t))

/-- `arctan t` for `|t| ≤ 1`: four halvings bring the tangent below one tenth. -/
def arctanUnit {p : Nat} (t : Enclosure p) : Enclosure p :=
  scale 16 (arctanSmall (halveTangent (halveTangent (halveTangent (halveTangent t)))))

/-- `arctan q`; beyond one it is a quarter turn away from the arctangent of the reciprocal. -/
def arctan (p : Nat) (q : Rat) : Enclosure p :=
  if q < -1 then -halfPi p - arctanUnit (ofRat (1 / q))
  else if 1 < q then halfPi p - arctanUnit (ofRat (1 / q))
  else arctanUnit (ofRat q)

/-- `arcsin q` for `|q| ≤ 1`: twice the angle whose tangent is `q / (1 + √(1 - q²))`. -/
def arcsin (p : Nat) (q : Rat) : Enclosure p :=
  scale 2 (arctanUnit (divPos (ofRat q) (ofInt 1 + sqrt (ofRat (1 - q * q)))))

/-- `arccos q` for `|q| ≤ 1`: the complement of the arcsine. -/
def arccos (p : Nat) (q : Rat) : Enclosure p :=
  if q = 1 then ofInt 0 else halfPi p - arcsin p q

/-! ## Sine, cosine and tangent -/

/-- `sin r` for `|r| ≤ 1`. -/
def sinSmall {p : Nat} (r : Enclosure p) : Enclosure p :=
  series (fun k => (2 * k + 2) * (2 * k + 3)) (fun _ => 1) (-(r * r)) (termCount p) 0 r

/-- `cos r` for `|r| ≤ 1`. -/
def cosSmall {p : Nat} (r : Enclosure p) : Enclosure p :=
  series (fun k => (2 * k + 1) * (2 * k + 2)) (fun _ => 1) (-(r * r)) (termCount p) 0 (ofInt 1)

/-- The number of quarter turns next to an angle, and the angle that remains.  The working
precision grows with the size of the angle, so that what remains keeps `p` binary places. -/
def reduceAngle (p : Nat) (q : Rat) : Int × Enclosure p :=
  let extra := Nat.log2 (q.num.natAbs / q.den + 1) + 4
  let angle : Enclosure (p + extra) := ofRat q
  let quarter := halfPi (p + extra)
  let turns := divDown (2 * angle.lo + quarter.lo) (2 * quarter.lo)
  (turns, coarsen extra (angle - scale turns quarter))

/-- The sine and the cosine of an angle: those of the remaining angle, exchanged and negated
once for each quarter turn. -/
def sinCos (p : Nat) (q : Rat) : Enclosure p × Enclosure p :=
  let (turns, rest) := reduceAngle p q
  let s := sinSmall rest
  let c := cosSmall rest
  match turns % 4 with
  | 0 => (s, c)
  | 1 => (c, -s)
  | 2 => (-s, -c)
  | _ => (-c, s)

/-- The tangent, unless the cosine may be zero. -/
def tan (p : Nat) (q : Rat) : Option (Enclosure p) :=
  let (s, c) := sinCos p q
  div? s c

/-! ## Logarithm and exponential function -/

/-- `2 artanh z` for a rational `|z| ≤ 1/3`: the series over the odd powers. -/
def twiceArtanh (p : Nat) (z : Rat) : Enclosure p :=
  let t : Enclosure p := ofRat z
  scale 2 (series (fun _ => 1) (fun k => 2 * k + 1) (t * t) (termCount p) 0 t)

/-- `ln 2 = 2 artanh (1/3)`. -/
def ln2 (p : Nat) : Enclosure p := twiceArtanh p (1 / 3)

/-- `ln q` for positive `q = m * 2 ^ e` with `1 ≤ m < 2`: the sum of `e ln 2` and
`ln m = 2 artanh ((m - 1) / (m + 1))`. -/
def ln (p : Nat) (q : Rat) : Enclosure p :=
  let e := Rounding.log2Floor q
  let m := q / (2 : Rat) ^ e
  scale e (ln2 p) + twiceArtanh p ((m - 1) / (m + 1))

/-- The decimal logarithm of a positive number. -/
def log10 (p : Nat) (q : Rat) : Option (Enclosure p) := div? (ln p q) (ln p 10)

/-- Bounds for `exp t`: as many powers of two as fit, times the series of what remains. -/
def expBounds {p : Nat} (t : Enclosure p) : Rat × Rat :=
  let log := ln2 p
  let e := divDown t.lo log.hi
  let rest := t - scale e log
  let m := series (fun k => k + 1) (fun _ => 1) rest (termCount p) 0 (ofInt 1)
  (m.lower * (2 : Rat) ^ e, m.upper * (2 : Rat) ^ e)

end StyleFunctions.Elementary
