import StyleFunctions.Measure
import StyleFunctions.Number.Decimal

/-!
# Dimensions

A dimension is a number with a unit.  The unit may be any text: empty for a bare number, `%` for
a percentage, the name of a convertible unit, or something that means nothing here.  `convert`
and `unify` change the unit together with the number, and leave alone what has no common measure
with the target.
-/

namespace StyleFunctions

/-- A number with a unit. -/
structure Dimension (α : Type) where
  value : α
  unit : String
  deriving DecidableEq, Repr

namespace Dimension

variable {α : Type}

/-- A bare number. -/
def ofNumber (value : α) : Dimension α := ⟨value, ""⟩

/-- Whether a dimension is a percentage. -/
def isPercentage (d : Dimension α) : Bool := d.unit == "%"

variable [Scalar α]

/-- The text of the number, then the unit. -/
def css (d : Dimension α) : String := numberText d.value ++ d.unit

/-- The dimension in the unit called `target`, or unchanged when that unit is not of its group. -/
def convert (d : Dimension α) (target : String) : Dimension α :=
  match Measure.convertNamed? d.value d.unit target with
  | some value => ⟨value, target⟩
  | none => d

/-- The dimension in the base unit of its group, or unchanged when it has no group. -/
def unify (d : Dimension α) : Dimension α :=
  match Measure.ofName? d.unit with
  | some measure => d.convert measure.group.base.name
  | none => d

end Dimension

end StyleFunctions
