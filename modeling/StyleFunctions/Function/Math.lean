import StyleFunctions.Function.Argument
import StyleFunctions.Number.Places

/-!
# Mathematical functions

* `MathFunction` lists the functions of one number.  They keep the unit of their argument,
  except the trigonometric ones: these bring the argument to its base unit first and give a bare
  number, or radians where they give an angle.
* `Arithmetic` holds the functions of two numbers: powers, and the remainder of 64-bit integers.
-/

namespace StyleFunctions

/-- The functions of one number. -/
inductive MathFunction
  | ceil | floor | sqrt | abs | round
  | trig (f : Trig)
  deriving DecidableEq, Repr

namespace MathFunction

/-- All functions of one number. -/
def all : List MathFunction :=
  [ceil, floor, sqrt, abs, round, trig .tan, trig .sin, trig .cos, trig .atan, trig .asin,
    trig .acos]

/-- The name of a function. -/
def name : MathFunction → String
  | ceil => "ceil"
  | floor => "floor"
  | sqrt => "sqrt"
  | abs => "abs"
  | round => "round"
  | trig .tan => "tan"
  | trig .sin => "sin"
  | trig .cos => "cos"
  | trig .atan => "atan"
  | trig .asin => "asin"
  | trig .acos => "acos"

/-- The function with a name. -/
def ofName? (name : String) : Option MathFunction := all.find? fun f => f.name == name

/-- The unit of the result, where it is not that of the argument. -/
def forcedUnit? : MathFunction → Option String
  | trig .tan | trig .sin | trig .cos => some ""
  | trig .atan | trig .asin | trig .acos => some "rad"
  | ceil | floor | sqrt | abs | round => none

variable {α : Type} [Scalar α]

/-- The value of a function; only rounding looks at the number of digits. -/
def value : MathFunction → (x digits : α) → α
  | ceil, x, _ => Scalar.ceil x
  | floor, x, _ => Scalar.floor x
  | sqrt, x, _ => Scalar.sqrt x
  | abs, x, _ => Scalar.abs x
  | round, x, digits => Places.round x digits
  | trig f, x, _ => Scalar.trig f x

/-- The value of a function of a dimension, with its unit. -/
def onDimension (f : MathFunction) (d : Dimension α) (digits : α) : Dimension α :=
  match f.forcedUnit? with
  | none => ⟨f.value d.value digits, d.unit⟩
  | some unit => ⟨f.value d.unify.value digits, unit⟩

/-- The value of a function of a value, which has to be a dimension. -/
def apply (f : MathFunction) (value : Value α) (digits : α) : Except Cause (Value α) :=
  match value with
  | .dimension d => .ok (.dimension (f.onDimension d digits))
  | _ => .error .mathTakesNumbers

/-- A dimension rounded to a number of digits, none when it is not given. -/
def applyRound (value : Value α) (digits : Option (Value α)) : Except Cause (Value α) :=
  match digits with
  | none => round.apply value 0
  | some (.dimension d) => round.apply value d.value
  | some _ => .error .mathTakesNumbers

end MathFunction

namespace Arithmetic

variable {α : Type} [Scalar α]

/-- A dimension raised to a power, in its own unit. -/
def pow (base exponent : Value α) : Except Cause (Value α) :=
  match base, exponent with
  | .dimension x, .dimension y => .ok (.dimension ⟨Scalar.pow x.value y.value, x.unit⟩)
  | _, _ => .error (.typeMismatch "Arguments must be numbers")

/-- A number's integer part as a 64-bit integer. -/
def integer (x : α) : Int := Scalar.toInt64 x

/-- The remainder of two 64-bit integers, with the sign of the dividend.  There is none by zero,
nor where the quotient is not a 64-bit integer. -/
def remainder? (dividend divisor : Int) : Option Int :=
  if divisor = 0 || (dividend = Rounding.minInt64 && divisor = -1) then none
  else some (dividend.tmod divisor)

/-- The remainder of the integer parts of two dimensions, in the unit of the first. -/
def modulo (a b : Dimension α) : Except Cause (Value α) :=
  match remainder? (integer a.value) (integer b.value) with
  | some r => .ok (.dimension ⟨Scalar.ofInt r, a.unit⟩)
  | none => .error .moduloByZero

end Arithmetic

end StyleFunctions
