import StyleFunctions.Number.Scalar

/-!
# Rounding to decimal places

`round x digits` rounds a number to a signed count of decimal places.  Scaling by a power of ten
can move a number by a fraction of its last place, so `scaled?` first rounds it to about fifteen
significant digits where that is finer than the place asked for, and `unscale?` brings the
integer back by a single operation or by way of the exact decimal.  Numbers too large to have
digits at the place, and results out of range, leave the number as it is.
-/

namespace StyleFunctions.Places

variable {α : Type} [Scalar α]

/-- Counts of places lie within the range of 32-bit signed integers. -/
def maxPlaces : Int := 2147483647

/-- The significant digits of the first rounding, less one. -/
def leadingDigits : Int := 14

/-- From this size on, a scaled number has no fraction worth rounding. -/
def exactBound : α := 1000000000000000

/-- Below this count of places, a power of ten is exact and brings the scaled number back. -/
def maxScaledPlaces : Nat := 23

/-- The smallest exponent of ten used in the first rounding. -/
def minExponent : Int := -60

/-- A number times a power of ten; a negative power is a division. -/
def scale (x : α) (power : Int) : α :=
  if 0 ≤ power then x * Scalar.pow10 power.toNat else x / Scalar.pow10 (-power).toNat

/-- A requested count of places, without its fraction and within range. -/
def ofDigits (digits : α) : Int := Scalar.toIntIn (-maxPlaces) maxPlaces digits

/-- The place of the last digit of the first rounding. -/
def precision (x : α) : Int := leadingDigits - Scalar.log10Floor (Scalar.abs x)

/-- A number times `10 ^ places`, after the first rounding where that is of use, or nothing when
the number is too large to be rounded at that place. -/
def scaled? (x : α) (places : Int) : Option α :=
  let fine := precision x
  if places < fine && fine - 15 < places then
    let fine := max fine minExponent
    let shift := max (places - fine) minExponent
    some (Scalar.round (scale x fine) / Scalar.pow10 shift.natAbs)
  else
    let scaled := scale x places
    if Scalar.isFinite scaled && Scalar.abs scaled < exactBound then some scaled else none

/-- An integer number times `10 ^ (-places)`.  For few places this is a multiplication or
division, for many the number nearest to the exact decimal, if that is finite. -/
def unscale? (rounded : α) (places : Int) : Option α :=
  if places.natAbs < maxScaledPlaces then some (scale rounded (-places))
  else if rounded == 0 then some rounded
  else
    match Scalar.value? rounded with
    | none => none
    | some q =>
      let x := Scalar.nearest rounded (q * (10 : Rat) ^ (-places))
      if Scalar.isFinite x then some x else none

/-- A number rounded to `digits` decimal places; the number itself where that is out of reach. -/
def round (x digits : α) : α :=
  if !Scalar.isFinite x || x == 0 then x
  else
    let places := ofDigits digits
    match scaled? x places with
    | none => x
    | some scaled => (unscale? (Scalar.round scaled) places).getD x

end StyleFunctions.Places
