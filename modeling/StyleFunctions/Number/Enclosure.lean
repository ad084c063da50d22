import StyleFunctions.Number.Rounding

/-!
# Enclosures of real numbers

An enclosure of precision `p` holds the numbers between two multiples of `2 ^ (-p)`.

* **Arithmetic** rounds outwards: a result encloses the results for all numbers in the
  arguments.
* **Power series** (`series`) end with a bound for the terms that are left out.
* **Rounded values** (`settle`) of a number that no finite computation reaches are found by
  doubling the precision, until both ends of an enclosure round to the same value.
-/

namespace StyleFunctions

/-- The numbers `x` with `lo ≤ x * 2 ^ p ≤ hi`. -/
structure Enclosure (p : Nat) where
  lo : Int
  hi : Int
  deriving Repr

namespace Enclosure

variable {p : Nat}

/-! ## Arithmetic with outward rounding -/

/-- The greatest integer not above `n / d`, for positive `d`. -/
def divDown (n d : Int) : Int := n.fdiv d

/-- The least integer not below `n / d`, for positive `d`. -/
def divUp (n d : Int) : Int := -(-n).fdiv d

/-- The number one in units of `2 ^ (-p)`. -/
def one (p : Nat) : Nat := Nat.pow 2 p

/-- The enclosure of an integer. -/
def ofInt (n : Int) : Enclosure p := ⟨n * one p, n * one p⟩

/-- The narrowest enclosure of a rational. -/
def ofRat (q : Rat) : Enclosure p :=
  ⟨divDown (q.num * one p) q.den, divUp (q.num * one p) q.den⟩

/-- The lower end. -/
def lower (a : Enclosure p) : Rat := (a.lo : Rat) / one p

/-- The upper end. -/
def upper (a : Enclosure p) : Rat := (a.hi : Rat) / one p

instance : Neg (Enclosure p) := ⟨fun a => ⟨-a.hi, -a.lo⟩⟩

instance : Add (Enclosure p) := ⟨fun a b => ⟨a.lo + b.lo, a.hi + b.hi⟩⟩

instance : Sub (Enclosure p) := ⟨fun a b => ⟨a.lo - b.hi, a.hi - b.lo⟩⟩

/-- The product: of the four products of ends the least and the greatest. -/
def mul (a b : Enclosure p) : Enclosure p :=
  let c := a.lo * b.lo
  let d := a.lo * b.hi
  let e := a.hi * b.lo
  let f := a.hi * b.hi
  ⟨divDown (min (min c d) (min e f)) (one p), divUp (max (max c d) (max e f)) (one p)⟩

instance : Mul (Enclosure p) := ⟨mul⟩

/-- The product with an integer. -/
def scale (k : Int) (a : Enclosure p) : Enclosure p :=
  if k < 0 then ⟨k * a.hi, k * a.lo⟩ else ⟨k * a.lo, k * a.hi⟩

/-- The quotient by a positive natural number. -/
def divNat (a : Enclosure p) (n : Nat) : Enclosure p := ⟨divDown a.lo n, divUp a.hi n⟩

/-- The quotient by a positive divisor. -/
def divPos (a b : Enclosure p) : Enclosure p :=
  let below := if a.lo < 0 then b.lo else b.hi
  let above := if a.hi < 0 then b.hi else b.lo
  ⟨divDown (a.lo * one p) below, divUp (a.hi * one p) above⟩

/-- The quotient, unless the divisor may be zero. -/
def div? (a b : Enclosure p) : Option (Enclosure p) :=
  if 0 < b.lo then some (divPos a b)
  else if b.hi < 0 then some (divPos (-a) (-b))
  else none

/-- The square root of a number that is not negative. -/
def sqrt (a : Enclosure p) : Enclosure p :=
  ⟨Nat.sqrt (a.lo.toNat * one p), Nat.sqrt (a.hi.toNat * one p) + 1⟩

/-- The same numbers with `extra` fewer binary places. -/
def coarsen (extra : Nat) (a : Enclosure (p + extra)) : Enclosure p :=
  ⟨divDown a.lo (one extra), divUp a.hi (one extra)⟩

/-! ## Power series -/

/-- The sum over `k` of `power k / weight k`, where each power is the one before times `ratio`
and divided by `step k`.  When every factor is at most one half in size, what follows the last
term is at most twice the next power. -/
def series (step weight : Nat → Nat) (ratio : Enclosure p) :
    Nat → Nat → Enclosure p → Enclosure p
  | 0, _, power =>
    let bound := 2 * max power.lo.natAbs power.hi.natAbs
    ⟨-bound, bound⟩
  | terms + 1, k, power =>
    power.divNat (weight k) +
      series step weight ratio terms (k + 1) ((power * ratio).divNat (step k))

/-- The number of terms that leaves an error below the precision when every term gains at
least two binary places. -/
def termCount (p : Nat) : Nat := p / 2 + 8

/-! ## Settling a rounded value -/

/-- The value that `round` takes on an enclosed number.  The precision doubles until both ends
agree; after the last attempt the lower end decides. -/
def settle {β : Type} [DecidableEq β] (round : Rat → β) (enclose : Nat → Option (Rat × Rat)) :
    (attempts precision : Nat) → β
  | 0, precision =>
    match enclose precision with
    | some (lo, _) => round lo
    | none => round 0
  | attempts + 1, precision =>
    match enclose precision with
    | some (lo, hi) =>
      if round lo = round hi then round lo
      else settle round enclose attempts (2 * precision)
    | none => settle round enclose attempts (2 * precision)

end Enclosure

end StyleFunctions
