import StyleFunctions.Number.Scalar

/-!
# Units of measure

The units that style sheets convert into each other.

* `Measure` lists them; each belongs to one `MeasureGroup` and has a `factor`, its size relative
  to a common measure of the group.
* `Measure.convert` turns a number of one unit into a number of another by one multiplication
  and one division; `Measure.convertNamed?` does so for the names of units, which compare
  exactly.
* `MeasureGroup.base` is the unit that numbers of a group are brought to before they are used
  without one.
-/

namespace StyleFunctions

/-- The groups of units that convert into each other. -/
inductive MeasureGroup
  | length | duration | angle
  deriving DecidableEq, Repr

/-- The convertible units. -/
inductive Measure
  | meter | centimeter | millimeter | inch | pixel | point | pica
  | second | millisecond
  | radian | degree | gradian | turn
  deriving DecidableEq, Repr

namespace Measure

/-- The unit with a name. -/
def ofName? (name : String) : Option Measure :=
  match name with
  | "m" => some .meter
  | "cm" => some .centimeter
  | "mm" => some .millimeter
  | "in" => some .inch
  | "px" => some .pixel
  | "pt" => some .point
  | "pc" => some .pica
  | "s" => some .second
  | "ms" => some .millisecond
  | "rad" => some .radian
  | "deg" => some .degree
  | "grad" => some .gradian
  | "turn" => some .turn
  | _ => none

/-- The name of a unit. -/
def name : Measure → String
  | meter => "m"
  | centimeter => "cm"
  | millimeter => "mm"
  | inch => "in"
  | pixel => "px"
  | point => "pt"
  | pica => "pc"
  | second => "s"
  | millisecond => "ms"
  | radian => "rad"
  | degree => "deg"
  | gradian => "grad"
  | turn => "turn"

/-- The group of a unit. -/
def group : Measure → MeasureGroup
  | meter | centimeter | millimeter | inch | pixel | point | pica => .length
  | second | millisecond => .duration
  | radian | degree | gradian | turn => .angle

end Measure

/-- The ratio of a circle's circumference to its diameter. -/
def circleRatio {α : Type} [Scalar α] : α := 3.141592653589793

namespace Measure

variable {α : Type} [Scalar α]

/-- The size of a unit: lengths in meters, durations in seconds, angles in turns. -/
def factor : Measure → α
  | meter => 1
  | centimeter => 0.01
  | millimeter => 0.001
  | inch => 0.0254
  | pixel => 0.0254 / 96
  | point => 0.0254 / 72
  | pica => 0.0254 / 72 * 12
  | second => 1
  | millisecond => 0.001
  | radian => 1 / (2 * circleRatio)
  | degree => 1 / 360
  | gradian => 1 / 400
  | turn => 1

end Measure

namespace MeasureGroup

/-- The unit that numbers of a group are brought to before they are compared. -/
def base : MeasureGroup → Measure
  | length => .pixel
  | duration => .second
  | angle => .radian

end MeasureGroup

namespace Measure

variable {α : Type} [Scalar α]

/-- A number of one unit as a number of another. -/
def convert (value : α) (source target : Measure) : α :=
  value * source.factor / target.factor

/-- A number of one named unit as a number of another, when both are known and of one group. -/
def convertNamed? (value : α) (source target : String) : Option α :=
  match ofName? source, ofName? target with
  | some a, some b => if a.group = b.group then some (convert value a b) else none
  | _, _ => none

end Measure

end StyleFunctions
