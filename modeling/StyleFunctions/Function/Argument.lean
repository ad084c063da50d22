import StyleFunctions.Error

/-!
# Arguments of function calls

* `Arity` says how many arguments a function takes.
* `Argument.color` and `Argument.dimension` read arguments of one type, and name the function
  when they refuse one.
* `Argument.number` and `Argument.scaled` read any dimension, a percentage counting as a
  fraction of one or of a given size.
-/

namespace StyleFunctions

/-- How many arguments a function takes. -/
structure Arity where
  least : Nat
  most : Option Nat
  deriving DecidableEq, Repr

namespace Arity

/-- Exactly `n` arguments. -/
def exactly (n : Nat) : Arity := ⟨n, some n⟩

/-- From `least` to `most` arguments. -/
def between (least most : Nat) : Arity := ⟨least, some most⟩

/-- `least` arguments or more. -/
def atLeast (least : Nat) : Arity := ⟨least, none⟩

/-- Whether a count of arguments is right. -/
def accepts (arity : Arity) (count : Nat) : Bool :=
  decide (arity.least ≤ count) && arity.most.all fun most => decide (count ≤ most)

end Arity

namespace Argument

variable {α : Type}

/-- The argument at a place.  A function whose arity accepts the count finds all it reads. -/
def get (arguments : List (Value α)) (i : Nat) : Except Cause (Value α) :=
  match arguments[i]? with
  | some value => .ok value
  | none => .error (.custom "missing argument")

/-- A value that has to be a colour. -/
def color (function : String) (value : Value α) : Except Cause (Color α) :=
  match value with
  | .color c => .ok c
  | other => .error (.typeMismatch (function ++ " expects a color, got " ++ other.typeName))

/-- A value that has to be a dimension. -/
def dimension (function : String) (value : Value α) : Except Cause (Dimension α) :=
  match value with
  | .dimension d => .ok d
  | other => .error (.typeMismatch (function ++ " expects a number, got " ++ other.typeName))

variable [Scalar α]

/-- The number that a dimension stands for, a percentage being a fraction of one. -/
def number (value : Value α) : Except Cause α :=
  match value with
  | .dimension d => .ok (if d.isPercentage then d.value / 100 else d.value)
  | _ => .error .numbersExpected

/-- The number that a dimension stands for, a percentage being a fraction of `size`. -/
def scaled (size : α) (value : Value α) : Except Cause α :=
  match value with
  | .dimension d => .ok (if d.isPercentage then d.value * size / 100 else d.value)
  | _ => .error .numbersExpected

end Argument

end StyleFunctions
