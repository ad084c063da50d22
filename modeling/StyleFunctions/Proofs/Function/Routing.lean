import Mathlib.Tactic
import StyleFunctions.Number.Exact
import StyleFunctions.Proofs.Function.Dispatch

/-!
# How calls are routed

A call fails for its name exactly if the table of arities does not have it, and for the count of
its arguments exactly if the table has other counts for it.  All other failures are refusals of an
argument: the arms of `Settings.dispatch` and the tables that they look in have every name of the
table of arities, and read no argument beyond the counts that go with it.

* `Refuses` — a computation fails with refusals only.  Reading an argument that is there is one
  such computation, reading one that is missing is not.
* `Builtin.refuses_apply`, `Settings.refuses_dispatch` — functions that get at least their least
  number of arguments never miss one, and no arm is missing.
* `Settings.call_eq_withName` — two spellings of a name are told apart by the errors that quote
  them, and by nothing else.
* `Settings.call_routing` — the three causes of failure that a call itself can have.
-/

namespace StyleFunctions

/-! ## Refusals -/

/-- A function found fault with the value of an argument. -/
def Cause.IsRefusal : Cause → Prop
  | .typeMismatch _ | .argumentType _ _ _ _ | .moduloByZero | .invalidArgument _ _ => True
  | .arityMismatch _ _ _ _ | .undefinedFunction _ | .custom _ => False

/-- A computation fails with refusals only. -/
def Refuses {β : Type} (x : Except Cause β) : Prop := ∀ cause, x = .error cause → cause.IsRefusal

namespace Refuses

variable {β γ : Type}

theorem ok (b : β) : Refuses (.ok b : Except Cause β) := nofun

theorem error {cause : Cause} (h : cause.IsRefusal) : Refuses (.error cause : Except Cause β) := by
  rintro _ ⟨⟩
  exact h

theorem bind {x : Except Cause β} {f : β → Except Cause γ} (hx : Refuses x)
    (hf : ∀ b, Refuses (f b)) : Refuses (x >>= f) := by
  cases x with
  | error cause => exact error (hx cause rfl)
  | ok b => exact hf b

theorem map {x : Except Cause β} (hx : Refuses x) (f : β → γ) : Refuses (f <$> x) := by
  cases x with
  | error cause => exact error (hx cause rfl)
  | ok b => exact ok (f b)

end Refuses

/-! ## Arguments -/

section

variable {α : Type}

/-- An argument that is there is read. -/
theorem refuses_get {arguments : List (Value α)} {i : Nat} (h : i < arguments.length) :
    Refuses (Argument.get arguments i) := by
  rw [Argument.get, List.getElem?_eq_getElem h]
  exact .ok _

theorem refuses_color (name : String) (v : Value α) : Refuses (Argument.color name v) := by
  cases v with
  | color c => exact .ok c
  | _ => exact .error trivial

theorem refuses_dimension (name : String) (v : Value α) : Refuses (Argument.dimension name v) := by
  cases v with
  | dimension d => exact .ok d
  | _ => exact .error trivial

variable [Scalar α]

theorem refuses_number (v : Value α) : Refuses (Argument.number v) := by
  cases v with
  | dimension d => exact .ok _
  | _ => exact .error trivial

theorem refuses_scaled (size : α) (v : Value α) : Refuses (Argument.scaled size v) := by
  cases v with
  | dimension d => exact .ok _
  | _ => exact .error trivial

theorem refuses_component (f : Construction) (v : Value α) : Refuses (f.component v) := by
  cases f with
  | rgb | rgba => exact refuses_scaled _ v
  | hsl | hsla | hsv | hsva => exact refuses_number v

theorem refuses_subject (f : Adjustment) (caller : String) (v : Value α) :
    Refuses (f.subject caller v) := by
  cases v with
  | color c => cases f <;> exact .ok c
  | _ => cases f <;> exact .error trivial

end

/-! ## Functions -/

section

variable {α : Type} [Scalar α]

theorem refuses_construction (f : Construction) {arguments : List (Value α)}
    (h : (if f.hasOpacity then 4 else 3) ≤ arguments.length) : Refuses (f.apply arguments) := by
  have hthree : 3 ≤ arguments.length := by
    split at h <;> omega
  refine (refuses_get (by omega)).bind fun a => (refuses_component f a).bind fun x => ?_
  refine (refuses_get (by omega)).bind fun b => (refuses_component f b).bind fun y => ?_
  refine (refuses_get (by omega)).bind fun c => (refuses_component f c).bind fun z => ?_
  by_cases hopacity : f.hasOpacity = true
  · rw [if_pos hopacity] at h ⊢
    exact (refuses_get (by omega)).bind fun d => (refuses_number d).bind fun alpha => .ok _
  · rw [if_neg hopacity]
    exact .ok _

theorem refuses_pick (v : Value α) (dark light threshold : Option (Value α)) :
    Refuses (Contrast.pick v dark light threshold) := by
  cases v with
  | color c =>
    have hchoice (bound : α) : Refuses (if c.luminance * c.alpha < bound
        then .ok (some (light.getD (.color Color.white)))
        else .ok (some (dark.getD (.color Color.black))) : Except Cause (Option (Value α))) := by
      split <;> exact .ok _
    cases threshold with
    | none => exact hchoice Contrast.defaultThreshold
    | some t => exact (refuses_number t).bind hchoice
  | _ => exact .ok none

theorem refuses_math (f : MathFunction) (v : Value α) (digits : α) :
    Refuses (f.apply v digits) := by
  cases v with
  | dimension d => exact .ok _
  | _ => exact .error trivial

theorem refuses_applyRound (v : Value α) (digits : Option (Value α)) :
    Refuses (MathFunction.applyRound v digits) := by
  cases digits with
  | none => exact refuses_math .round v 0
  | some d =>
    cases d with
    | dimension d => exact refuses_math .round v d.value
    | _ => exact .error trivial

theorem refuses_modulo (a b : Dimension α) : Refuses (Arithmetic.modulo a b) := by
  rw [Arithmetic.modulo]
  split
  · exact .ok _
  · exact .error trivial

theorem refuses_pow (base exponent : Value α) : Refuses (Arithmetic.pow base exponent) := by
  rw [Arithmetic.pow.eq_def]
  split
  · exact .ok _
  · exact .error trivial

theorem refuses_readColor (v : Value α) : Refuses (Conversion.color v) := by
  cases v with
  | quoted q =>
    rw [Conversion.color]
    split
    · exact .ok _
    · exact .error trivial
  | _ => exact .error trivial

end

namespace Builtin

variable {α : Type} [Scalar α]

/-- A function that gets its least number of arguments or more never misses one. -/
theorem refuses_apply (settings : Settings) (caller : String) (f : Builtin)
    {arguments : List (Value α)} (h : f.arity.least ≤ arguments.length) :
    Refuses (f.apply settings caller arguments) := by
  have hcolor (i : Nat) (hi : i < f.arity.least) :
      Refuses (do Argument.color f.name (← Argument.get arguments i)) :=
    (refuses_get (hi.trans_le h)).bind fun v => refuses_color _ v
  have hdimension (i : Nat) (hi : i < f.arity.least) :
      Refuses (do Argument.dimension f.name (← Argument.get arguments i)) :=
    (refuses_get (hi.trans_le h)).bind fun v => refuses_dimension _ v
  have hvalue (i : Nat) (hi : i < f.arity.least) : Refuses (Argument.get arguments i) :=
    refuses_get (hi.trans_le h)
  cases f with
  | construction f => exact (refuses_construction f h).bind fun c => .ok _
  | projection f => exact (hcolor 0 Nat.zero_lt_one).bind fun c => .ok _
  | adjustment f =>
    exact (hvalue 0 Nat.zero_lt_two).bind fun v => (refuses_subject f caller v).bind fun c =>
      (hdimension 1 Nat.one_lt_two).bind fun d => .ok _
  | contrast => exact (hvalue 0 Nat.zero_lt_one).bind fun v => refuses_pick v _ _ _
  | greyscale => exact (hcolor 0 Nat.zero_lt_one).bind fun c => .ok _
  | mix =>
    have hcolors (weight : Option (Dimension α)) : Refuses (do
        let first ← (do Argument.color mix.name (← Argument.get arguments 0))
        let second ← (do Argument.color mix.name (← Argument.get arguments 1))
        return some (.color (Color.mix first second weight)) : Except Cause (Option (Value α))) :=
      (hcolor 0 Nat.zero_lt_two).bind fun c => (hcolor 1 Nat.one_lt_two).bind fun d => .ok _
    rw [apply.eq_def]
    dsimp only
    split
    · exact ((refuses_dimension _ _).map some).bind hcolors
    · exact hcolors none
  | blend mode =>
    exact (hcolor 0 Nat.zero_lt_two).bind fun c => (hcolor 1 Nat.one_lt_two).bind fun d => .ok _
  | math f =>
    cases f with
    | round =>
      exact (hvalue 0 Nat.zero_lt_one).bind fun v => (refuses_applyRound v _).bind fun r => .ok _
    | ceil | floor | sqrt | abs | trig _ =>
      exact (hvalue 0 Nat.zero_lt_one).bind fun v => (refuses_math _ v 0).bind fun r => .ok _
  | mod =>
    exact (hdimension 0 Nat.zero_lt_two).bind fun a => (hdimension 1 Nat.one_lt_two).bind fun b =>
      (refuses_modulo a b).bind fun r => .ok _
  | pi => exact .ok _
  | pow =>
    exact (hvalue 0 Nat.zero_lt_two).bind fun a => (hvalue 1 Nat.one_lt_two).bind fun b =>
      (refuses_pow a b).bind fun r => .ok _
  | color =>
    exact (hvalue 0 Nat.zero_lt_one).bind fun v => (refuses_readColor v).bind fun c => .ok _
  | convert =>
    exact (hdimension 0 Nat.zero_lt_two).bind fun d => (hvalue 1 Nat.one_lt_two).bind fun v => .ok _
  | percentage | unit => exact (hdimension 0 Nat.zero_lt_one).bind fun d => .ok _
  | typeTest _ | format | e | escape | dataUrl =>
    exact (hvalue 0 Nat.zero_lt_one).bind fun v => .ok _

end Builtin

/-! ## Names in errors -/

/-- A cause that quotes another name as the name of the call. -/
def Cause.withName (name : String) : Cause → Cause
  | .undefinedFunction _ => .undefinedFunction name
  | .arityMismatch _ least most got => .arityMismatch name least most got
  | cause => cause

theorem Cause.IsRefusal.withName_eq {cause : Cause} (h : cause.IsRefusal) (name : String) :
    cause.withName name = cause := by
  cases cause with
  | undefinedFunction _ | arityMismatch _ _ _ _ => exact h.elim
  | _ => rfl

/-- An error that quotes another name as the name of the call, in the words of its cause. -/
def Error.withName (name : String) (e : Error) : Error :=
  { e with toDiagnosis := { cause := e.cause.withName name } }

/-- What fails with refusals only does not quote the name of the call. -/
theorem Refuses.mapError_withName {β : Type} {x : Except Cause β} (hx : Refuses x) (name : String) :
    x.mapError (Cause.withName name) = x := by
  cases x with
  | ok b => rfl
  | error cause => exact congrArg Except.error ((hx cause rfl).withName_eq name)

/-! ## Arities -/

namespace Arity

/-- A count of arguments is not one of those that go with a name. -/
def Excludes (arity : Arity) (count : Nat) : Prop :=
  count < arity.least ∨ ∃ most ∈ arity.most, most < count

theorem accepts_eq_false_iff {arity : Arity} {count : Nat} :
    arity.accepts count = false ↔ arity.Excludes count := by
  obtain ⟨least, most⟩ := arity
  cases most <;> simp [accepts, Excludes, imp_iff_not_or]

theorem accepts_eq_true_iff {arity : Arity} {count : Nat} :
    arity.accepts count = true ↔ ¬ arity.Excludes count := by
  rw [← accepts_eq_false_iff, Bool.not_eq_false]

theorem least_le_of_accepts {arity : Arity} {count : Nat} (h : arity.accepts count = true) :
    arity.least ≤ count := by
  rw [accepts, Bool.and_eq_true] at h
  exact of_decide_eq_true h.1

end Arity

/-! ## Calls -/

namespace Settings

variable {α : Type} [Scalar α]

/-- A call fails, and for the given cause. -/
def FailsWith (settings : Settings) (name : String) (arguments : List (Value α))
    (site : CallSite) (cause : Cause) : Prop :=
  ∃ e, settings.call name arguments site = .error e ∧ e.cause = cause

theorem call_eq_mapError (settings : Settings) (name : String) (arguments : List (Value α))
    (site : CallSite) : settings.call name arguments site =
      (settings.outcome name arguments site.function).mapError fun cause =>
        site.attach { cause } := by
  rw [call]
  cases settings.outcome name arguments site.function <;> rfl

/-- The place of a call does not change why it fails. -/
theorem failsWith_iff {settings : Settings} {name : String} {arguments : List (Value α)}
    {site : CallSite} {cause : Cause} : settings.FailsWith name arguments site cause ↔
      settings.outcome name arguments site.function = .error cause := by
  rw [FailsWith, call_eq_mapError]
  cases settings.outcome name arguments site.function with
  | ok result => exact ⟨nofun, nofun⟩
  | error other =>
    constructor
    · rintro ⟨_, ⟨⟩, rfl⟩
      rfl
    · rintro ⟨⟩
      exact ⟨_, rfl, rfl⟩

/-- With a name of the table and a count that goes with it an arm is reached, and that arm never
misses an argument. -/
theorem refuses_dispatch (settings : Settings) {key : String} {arity : Arity}
    {arguments : List (Value α)} (caller : String) (h : Builtin.arity? key = some arity)
    (hcount : arity.accepts arguments.length = true) :
    Refuses (settings.dispatch key caller arguments) := by
  rw [Builtin.arity?_eq, Option.map_eq_some_iff] at h
  obtain ⟨f, hname, rfl⟩ := h
  rw [← Builtin.ofName?_eq_some_iff.1 hname, dispatch_name]
  exact f.refuses_apply settings caller (Arity.least_le_of_accepts hcount)

/-- With a known name and a right count of arguments only refusals are left. -/
theorem refuses_outcome (settings : Settings) {name : String} {arguments : List (Value α)}
    {f : Builtin} (caller : String) (h : Builtin.lookup? name = some f)
    (hcount : f.arity.accepts arguments.length = true) :
    Refuses (settings.outcome name arguments caller) := by
  rw [outcome_of_accepted_count h hcount]
  exact f.refuses_apply settings caller (Arity.least_le_of_accepts hcount)

/-- A call by a name that is not in the table fails for that, and no other call does. -/
theorem outcome_eq_undefinedFunction_iff (settings : Settings) (name : String)
    (arguments : List (Value α)) (caller n : String) :
    settings.outcome name arguments caller = .error (.undefinedFunction n) ↔
      Builtin.isKnown name = false ∧ n = name := by
  rw [Builtin.isKnown_eq]
  cases h : Builtin.lookup? name with
  | none =>
    rw [outcome_of_unknown h]
    simp [eq_comm]
  | some f =>
    refine ⟨fun hfail => ?_, fun hno => absurd hno.1 nofun⟩
    cases hcount : f.arity.accepts arguments.length with
    | true => exact (settings.refuses_outcome caller h hcount _ hfail).elim
    | false => simp [outcome_of_refused_count h hcount] at hfail

/-- A call with a count of arguments that does not go with its name fails for that, and no other
call does. -/
theorem outcome_eq_arityMismatch_iff (settings : Settings) (name : String)
    (arguments : List (Value α)) (caller n : String) (least : Nat) (most : Option Nat)
    (got : Nat) :
    settings.outcome name arguments caller = .error (.arityMismatch n least most got) ↔
      ∃ arity, Builtin.arity? (Builtin.canonicalName name) = some arity ∧
        arity.Excludes arguments.length ∧
        n = name ∧ least = arity.least ∧ most = arity.most ∧ got = arguments.length := by
  rw [Builtin.arity?_canonicalName]
  cases h : Builtin.lookup? name with
  | none => simp [outcome_of_unknown h]
  | some f =>
    cases hcount : f.arity.accepts arguments.length with
    | true =>
      refine ⟨fun hfail => (settings.refuses_outcome caller h hcount _ hfail).elim, ?_⟩
      rintro ⟨_, ⟨⟩, hexcludes, -⟩
      exact absurd hexcludes (Arity.accepts_eq_true_iff.1 hcount)
    | false =>
      rw [outcome_of_refused_count h hcount]
      constructor
      · rintro ⟨⟩
        exact ⟨f.arity, rfl, Arity.accepts_eq_false_iff.1 hcount, rfl, rfl, rfl, rfl⟩
      · rintro ⟨_, ⟨⟩, -, rfl, rfl, rfl, rfl⟩
        rfl

/-- No call misses an argument. -/
theorem outcome_ne_custom (settings : Settings) (name : String) (arguments : List (Value α))
    (caller message : String) :
    settings.outcome name arguments caller ≠ .error (.custom message) := by
  intro hfail
  cases h : Builtin.lookup? name with
  | none => simp [outcome_of_unknown h] at hfail
  | some f =>
    cases hcount : f.arity.accepts arguments.length with
    | true => exact settings.refuses_outcome caller h hcount _ hfail
    | false => simp [outcome_of_refused_count h hcount] at hfail

theorem outcome_eq_withName (settings : Settings) {name name' : String}
    (arguments : List (Value α)) (caller : String)
    (h : Builtin.canonicalName name' = Builtin.canonicalName name) :
    settings.outcome name' arguments caller =
      (settings.outcome name arguments caller).mapError (Cause.withName name') := by
  have hlookup : Builtin.lookup? name' = Builtin.lookup? name := congrArg Builtin.ofName? h
  cases hfound : Builtin.lookup? name with
  | none =>
    rw [outcome_of_unknown hfound, outcome_of_unknown (hlookup.trans hfound)]
    rfl
  | some f =>
    cases hcount : f.arity.accepts arguments.length with
    | true =>
      rw [(settings.refuses_outcome caller hfound hcount).mapError_withName,
        outcome_of_accepted_count hfound hcount,
        outcome_of_accepted_count (hlookup.trans hfound) hcount]
    | false =>
      rw [outcome_of_refused_count hfound hcount,
        outcome_of_refused_count (hlookup.trans hfound) hcount]
      rfl

/-- Two spellings of a name are told apart by the errors that quote them, and by nothing else. -/
theorem call_eq_withName (settings : Settings) {name name' : String}
    (arguments : List (Value α)) (site : CallSite)
    (h : Builtin.canonicalName name' = Builtin.canonicalName name) :
    settings.call name' arguments site =
      (settings.call name arguments site).mapError (Error.withName name') := by
  rw [call_eq_mapError, call_eq_mapError, settings.outcome_eq_withName arguments site.function h]
  cases settings.outcome name arguments site.function <;> rfl

/-- A call fails for its name exactly if it is unknown, fails for the count of its arguments
exactly if that does not go with the name, and never misses an argument.  An arm is reached under
the names of the table and no others, and with a right count of arguments it does no more than to
refuse them, so that it does not miss its own name in a second table either.  Spellings of a name
agree. -/
theorem call_routing (settings : Settings) (name : String) (arguments : List (Value α))
    (site : CallSite) :
    (∀ n, settings.FailsWith name arguments site (.undefinedFunction n) ↔
      Builtin.isKnown name = false ∧ n = name) ∧
    (∀ n least most got,
      settings.FailsWith name arguments site (.arityMismatch n least most got) ↔
        ∃ arity, Builtin.arity? (Builtin.canonicalName name) = some arity ∧
          arity.Excludes arguments.length ∧
          n = name ∧ least = arity.least ∧ most = arity.most ∧ got = arguments.length) ∧
    (∀ message, ¬ settings.FailsWith name arguments site (.custom message)) ∧
    (∀ key caller, Builtin.arity? key = none →
      settings.dispatch key caller arguments = .error (.undefinedFunction key)) ∧
    (∀ key caller arity, Builtin.arity? key = some arity → ¬ arity.Excludes arguments.length →
      Refuses (settings.dispatch key caller arguments)) ∧
    ∀ name', Builtin.canonicalName name' = Builtin.canonicalName name →
      Builtin.isKnown name' = Builtin.isKnown name ∧
        settings.call name' arguments site =
          (settings.call name arguments site).mapError (Error.withName name') := by
  refine ⟨fun n => ?_, fun n least most got => ?_, fun message => ?_, fun key caller h => ?_,
    fun key caller arity h hcount => ?_,
    fun name' h => ⟨?_, settings.call_eq_withName arguments site h⟩⟩
  · rw [failsWith_iff]
    exact settings.outcome_eq_undefinedFunction_iff name arguments site.function n
  · rw [failsWith_iff]
    exact settings.outcome_eq_arityMismatch_iff name arguments site.function n least most got
  · rw [failsWith_iff]
    exact settings.outcome_ne_custom name arguments site.function message
  · exact settings.dispatch_of_unknown caller arguments h
  · exact settings.refuses_dispatch caller h (Arity.accepts_eq_true_iff.2 hcount)
  · exact congrArg (fun key => (Builtin.arity? key).isSome) h

/-- Without arguments, `MULTIPLY` fails for their count, and so does `multiply` but for the name
in the error.  With two arguments its arm finds the blend mode, and that of `ceil` with one
argument its function of one number. -/
theorem call_routing_multiply :
    ({} : Settings).FailsWith "MULTIPLY" ([] : List (Value Rat)) { function := "multiply" }
      (.arityMismatch "MULTIPLY" 2 (some 2) 0) ∧
    ({} : Settings).call "multiply" ([] : List (Value Rat)) { function := "multiply" } =
      (({} : Settings).call "MULTIPLY" ([] : List (Value Rat))
        { function := "multiply" }).mapError (Error.withName "multiply") ∧
    (∀ first second : Value Rat,
      Refuses (({} : Settings).dispatch "multiply" "multiply" [first, second])) ∧
    ∀ first : Value Rat, Refuses (({} : Settings).dispatch "ceil" "Ceil" [first]) := by
  have harity : Builtin.arity? (Builtin.canonicalName "MULTIPLY") = some ⟨2, some 2⟩ := by
    decide +kernel
  have hname : Builtin.canonicalName "multiply" = Builtin.canonicalName "MULTIPLY" := by
    decide +kernel
  obtain ⟨-, hcount, -, -, -, hspelling⟩ :=
    call_routing {} "MULTIPLY" ([] : List (Value Rat)) { function := "multiply" }
  refine ⟨(hcount _ _ _ _).2 ⟨_, harity, Or.inl Nat.zero_lt_two, rfl, rfl, rfl, rfl⟩,
    (hspelling "multiply" hname).2, fun first second => ?_, fun first => ?_⟩
  · obtain ⟨-, -, -, -, harm, -⟩ :=
      call_routing {} "multiply" [first, second] { function := "multiply" }
    exact harm "multiply" "multiply" ⟨2, some 2⟩ (by decide) (by simp [Arity.Excludes])
  · obtain ⟨-, -, -, -, harm, -⟩ := call_routing {} "ceil" [first] { function := "Ceil" }
    exact harm "ceil" "Ceil" ⟨1, some 1⟩ (by decide) (by simp [Arity.Excludes])

end Settings

end StyleFunctions
