import StyleFunctions.Number.Exact

/-!
# Exact numbers that notice missing values

`Checked` is a third type of scalars.  Formulas compute with rational numbers as in the exact
reading, but a quotient by zero is `undefined`, and so is everything that is computed from it.
A formula whose result over `Checked` is a number has divided by no zero on the way there.
-/

namespace StyleFunctions

/-- A rational number, or the mark of a value that does not exist. -/
inductive Checked
  | exact (q : Rat)
  | undefined
  deriving DecidableEq, Repr

namespace Checked

/-- The number, where there is one. -/
def value? : Checked → Option Rat
  | exact q => some q
  | undefined => none

/-- A partial function of one number. -/
def lift (f : Rat → Option Rat) : Checked → Checked
  | exact p => ((f p).map exact).getD undefined
  | undefined => undefined

/-- A partial function of two numbers. -/
def lift₂ (f : Rat → Rat → Option Rat) : Checked → Checked → Checked
  | exact p, exact q => ((f p q).map exact).getD undefined
  | _, _ => undefined

/-- A relation of two numbers; what is undefined is related to nothing. -/
def holds (r : Rat → Rat → Bool) : Checked → Checked → Bool
  | exact p, exact q => r p q
  | _, _ => false

/-- The quotient, unless the divisor is zero. -/
def quotient? (p q : Rat) : Option Rat := if q = 0 then none else some (p / q)

/-- The square root, unless the number is negative. -/
def sqrt? (p : Rat) : Option Rat := if p < 0 then none else some (Exact.sqrt p)

/-- A power, unless zero is raised to a negative exponent or a negative number to a fraction. -/
def pow? (p q : Rat) : Option Rat :=
  if p = 0 ∧ q < 0 ∨ p < 0 ∧ q.den ≠ 1 then none else some (Exact.pow p q)

/-- An undefined value equals itself, so that it does not give way to a number as a larger or
smaller argument. -/
instance : Scalar Checked where
  add := lift₂ fun p q => some (p + q)
  sub := lift₂ fun p q => some (p - q)
  mul := lift₂ fun p q => some (p * q)
  div := lift₂ quotient?
  neg := lift fun p => some (-p)
  lt x y := holds (fun p q => decide (p < q)) x y = true
  le x y := holds (fun p q => decide (p ≤ q)) x y = true
  beq x y := decide (x = y)
  ofScientific m negative e := exact (OfScientific.ofScientific m negative e)
  numeral n := ⟨exact n⟩
  decLt _ _ := inferInstance
  decLe _ _ := inferInstance
  value? := value?
  nearest _ q := exact q
  abs := lift fun p => some (Scalar.abs p)
  sqrt := lift sqrt?
  pow10 n := exact (Scalar.pow10 n)
  log10Floor x := (value? x).elim 0 Rounding.log10Floor
  trig f := lift (Grid.trig? f)
  pow := lift₂ pow?

end Checked

end StyleFunctions
