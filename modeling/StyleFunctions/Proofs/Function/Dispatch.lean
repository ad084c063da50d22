import StyleFunctions.Function.Call
import StyleFunctions.Proofs.Function.Lookup

/-!
# The functions behind the names

Calls find their function by comparing strings: in the table of arities, in the arms of
`Settings.dispatch`, and for two families of functions in a table of names besides.  Here the
tables are shown to agree, and each arm to be the function that goes by its name.

* `Builtin.apply` — what a function does with its arguments, split over the functions instead of
  their names.
* `Builtin.arity?_eq` — the table of arities holds every function, with its counts, and nothing
  else.
* `Settings.dispatch_name`, `Settings.dispatch_of_unknown` — under the name of a function its arm
  is reached, under any other name none.
* `Settings.outcome_of_unknown`, `Settings.outcome_of_refused_count`,
  `Settings.outcome_of_accepted_count` — a call, by the function that its name stands for.
-/

namespace StyleFunctions

namespace Builtin

variable {α : Type} [Scalar α]

/-- The result of a function for its arguments: the arm of `Settings.dispatch` under the name of
the function.  `caller` is the name that the call site gives to the function. -/
def apply (settings : Settings) (caller : String) (f : Builtin) (arguments : List (Value α)) :
    Except Cause (Option (Value α)) :=
  let valueAt (i : Nat) : Except Cause (Value α) := Argument.get arguments i
  let colorAt (i : Nat) : Except Cause (Color α) := do Argument.color f.name (← valueAt i)
  let dimensionAt (i : Nat) : Except Cause (Dimension α) := do
    Argument.dimension f.name (← valueAt i)
  match f with
  | construction f => do return some (.color (← f.apply arguments))
  | projection f => do return some (f.apply (← colorAt 0))
  | adjustment f => do
    let c ← f.subject caller (← valueAt 0)
    let amount ← dimensionAt 1
    return some (.color (f.apply c amount))
  | contrast => do Contrast.pick (← valueAt 0) arguments[1]? arguments[2]? arguments[3]?
  | greyscale => do return some (.color (← colorAt 0).greyscale)
  | mix => do
    let weight ←
      match arguments[2]? with
      | some w => some <$> Argument.dimension f.name w
      | none => pure none
    let first ← colorAt 0
    let second ← colorAt 1
    return some (.color (Color.mix first second weight))
  | blend mode => do
    let first ← colorAt 0
    let second ← colorAt 1
    return some (.color (mode.blend first second))
  | math .round => do return some (← MathFunction.applyRound (← valueAt 0) arguments[1]?)
  | math f => do return some (← f.apply (← valueAt 0) 0)
  | mod => do
    let dividend ← dimensionAt 0
    let divisor ← dimensionAt 1
    return some (← Arithmetic.modulo dividend divisor)
  | pi => return some (.number circleRatio)
  | pow => do
    let base ← valueAt 0
    let exponent ← valueAt 1
    return some (← Arithmetic.pow base exponent)
  | color => do return some (.color (← Conversion.color (← valueAt 0)))
  | convert => do
    let d ← dimensionAt 0
    return some (.dimension (Conversion.toUnit d (← valueAt 1)))
  | percentage => do return some (Conversion.percentage (← dimensionAt 0))
  | unit => do
    let d ← dimensionAt 0
    return some (.dimension (Conversion.withUnit settings.css d arguments[1]?))
  | typeTest f => do return some (.boolean (f.holds (← valueAt 0)))
  | format => do
    return some (Template.format settings.css (← valueAt 0) (arguments.drop 1))
  | e => do return some (.anonymous (← valueAt 0).rawText)
  | escape => do return some (.anonymous (UrlEncoding.encodeForm (← valueAt 0).rawText))
  | dataUrl => do
    return some (DataUrl.embed settings.mode settings.loader (← valueAt 0) arguments[1]?)

end Builtin

/-! ## The tables -/

namespace Builtin

/-- The table of arities has one row for each function, in the order of `all`. -/
theorem arities_eq : arities = all.map fun f => (f.name, f.arity) := rfl

/-- The table of arities holds every function, with its counts, and nothing else. -/
theorem arity?_eq (name : String) : arity? name = (ofName? name).map arity := by
  unfold arity? ofName?
  rw [arities_eq]
  induction all with
  | nil => rfl
  | cons f rest ih =>
    rw [List.map_cons, List.lookup_cons, List.find?_cons, ih]
    by_cases h : f.name = name
    · subst h
      rw [beq_self_eq_true]
      rfl
    · rw [beq_false_of_ne h, beq_false_of_ne (Ne.symm h)]

/-- A written name has the counts of the function that it stands for. -/
theorem arity?_canonicalName (name : String) :
    arity? (canonicalName name) = (lookup? name).map arity := arity?_eq (canonicalName name)

theorem isKnown_eq (name : String) : isKnown name = (lookup? name).isSome := by
  rw [isKnown, arity?_canonicalName, Option.isSome_map]

end Builtin

/-! ## The arms -/

section

variable {α : Type} [Scalar α]

/-- All adjustments but `darken` refuse what is no colour in the same words. -/
theorem Adjustment.subject_of_ne_darken {f : Adjustment} (h : f ≠ .darken) (caller : String)
    (v : Value α) : f.subject caller v = Argument.color f.name v := by
  cases v with
  | color c => cases f <;> rfl
  | _ => cases f <;> first | rfl | exact absurd rfl h

namespace Settings

variable (settings : Settings) (caller : String) (arguments : List (Value α))

/-- An adjustment is what is done under its name. -/
theorem dispatch_adjustment (f : Adjustment) :
    settings.dispatch f.name caller arguments =
      (Builtin.adjustment f).apply settings caller arguments := by
  by_cases h : f = .darken
  · subst h
    rfl
  · -- under every other name the colour is read before it is known which function reads it
    have harm : settings.dispatch f.name caller arguments = (do
        let c ← (do Argument.color f.name (← Argument.get arguments 0))
        let amount ← (do Argument.dimension f.name (← Argument.get arguments 1))
        return some (.color (f.apply c amount))) := by
      cases f <;> first | rfl | exact absurd rfl h
    rw [harm, bind_assoc]
    refine bind_congr fun v => ?_
    rw [Adjustment.subject_of_ne_darken h]
    rfl

/-- Under the name of a function its arm is reached, and in it, where there is one, its row of the
second table. -/
theorem dispatch_name (f : Builtin) :
    settings.dispatch f.name caller arguments = f.apply settings caller arguments := by
  cases f with
  | construction f => cases f <;> rfl
  | projection f => cases f <;> rfl
  | adjustment f => exact settings.dispatch_adjustment caller arguments f
  | blend mode => cases mode <;> rfl
  | math f =>
    cases f with
    | trig f => cases f <;> rfl
    | _ => rfl
  | typeTest f => cases f <;> rfl
  | _ => rfl

/-- Under a name that is not in the table of arities no arm is reached. -/
theorem dispatch_of_unknown {name : String} (h : Builtin.arity? name = none) :
    settings.dispatch name caller arguments = .error (.undefinedFunction name) := by
  rw [dispatch.eq_def]
  dsimp only
  split
  -- every arm but the last has a name of the table
  all_goals first | rfl | exact absurd h (by decide)

/-! ## Calls -/

variable {settings caller arguments} {name : String}

/-- A call by a name that stands for no function. -/
theorem outcome_of_unknown (h : Builtin.lookup? name = none) :
    settings.outcome name arguments caller = .error (.undefinedFunction name) := by
  unfold outcome
  rw [Builtin.arity?_canonicalName, h]
  rfl

/-- A call with a count of arguments that the function does not take. -/
theorem outcome_of_refused_count {f : Builtin} (h : Builtin.lookup? name = some f)
    (hcount : f.arity.accepts arguments.length = false) :
    settings.outcome name arguments caller =
      .error (.arityMismatch name f.arity.least f.arity.most arguments.length) := by
  unfold outcome
  rw [Builtin.arity?_canonicalName, h]
  simp [hcount]

/-- A call with a count of arguments that the function takes. -/
theorem outcome_of_accepted_count {f : Builtin} (h : Builtin.lookup? name = some f)
    (hcount : f.arity.accepts arguments.length = true) :
    settings.outcome name arguments caller = f.apply settings caller arguments := by
  unfold outcome
  rw [Builtin.arity?_canonicalName, h]
  simp only [Option.map_some, hcount, if_true]
  rw [Builtin.lookup?_eq_some_iff.1 h, dispatch_name]

end Settings

end

end StyleFunctions
