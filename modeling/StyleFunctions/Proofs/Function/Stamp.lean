import Mathlib.Tactic
import StyleFunctions.Proofs.Function.Routing

/-!
# Errors that know the place of their call

A call fails in one of three ways (`Settings.Failure`): no function has its name, the function
takes another count of arguments, or the function refuses an argument.  Whichever way it is, the
error holds the place of this call and of no other (`Error.IsStamped`).

* `Settings.outcome_eq_error_iff` — the three ways are all there are.
* `Settings.call_eq_error_iff` — the errors of a call are those of the three ways, stamped.
-/

namespace StyleFunctions

/-! ## Stamps -/

/-- An error that holds the place of one call and nothing of any other.  It is worded by its
cause, with the function and, where it is known, the line of the call behind that. -/
structure Error.IsStamped (site : CallSite) (e : Error) : Prop where
  span : e.span = site.span
  backtrace : e.backtrace = some [⟨site.function, site.span, site.line⟩]
  message : e.message = e.cause.message
  text : e.text = e.message ++ " (in " ++ site.function ++
    (site.line.elim "" fun line => " on line " ++ toString line.toNat) ++ ")"

/-- The place of a call is all that a new error holds besides its cause. -/
theorem CallSite.isStamped_attach (site : CallSite) (cause : Cause) :
    (site.attach { cause }).IsStamped site := by
  refine ⟨Option.none_or, rfl, rfl, ?_⟩
  cases hline : site.line <;> simp [attach, Error.text, Error.innermost?, frame, Frame.lineText,
    hline]

/-- A stamp and a cause make up the error. -/
theorem Error.IsStamped.eq_attach {site : CallSite} {e : Error} (h : e.IsStamped site) :
    e = site.attach { cause := e.cause } := by
  obtain ⟨⟨cause, message⟩, span, backtrace⟩ := e
  obtain ⟨hspan, hbacktrace, hmessage, -⟩ := h
  dsimp only at hspan hbacktrace hmessage
  subst hspan hbacktrace hmessage
  rw [CallSite.attach, Option.none_or]
  rfl

/-! ## Failures -/

namespace Settings

variable {α : Type} [Scalar α]

/-- The ways in which a call fails. -/
inductive Failure (settings : Settings) (name : String) (arguments : List (Value α))
    (caller : String) : Cause → Prop
  /-- No function has the name. -/
  | unknown (h : Builtin.lookup? name = none) :
      Failure settings name arguments caller (.undefinedFunction name)
  /-- The function takes another count of arguments. -/
  | count {f : Builtin} (h : Builtin.lookup? name = some f)
      (hcount : f.arity.accepts arguments.length = false) :
      Failure settings name arguments caller
        (.arityMismatch name f.arity.least f.arity.most arguments.length)
  /-- The function refuses its arguments. -/
  | refusal {f : Builtin} {cause : Cause} (h : Builtin.lookup? name = some f)
      (hcount : f.arity.accepts arguments.length = true)
      (hrefuses : f.apply settings caller arguments = .error cause) :
      Failure settings name arguments caller cause

theorem outcome_eq_error_iff {settings : Settings} {name caller : String}
    {arguments : List (Value α)} {cause : Cause} :
    settings.outcome name arguments caller = .error cause ↔
      settings.Failure name arguments caller cause := by
  constructor
  · intro hfail
    cases h : Builtin.lookup? name with
    | none =>
      rw [outcome_of_unknown h] at hfail
      cases hfail
      exact .unknown h
    | some f =>
      cases hcount : f.arity.accepts arguments.length with
      | false =>
        rw [outcome_of_refused_count h hcount] at hfail
        cases hfail
        exact .count h hcount
      | true =>
        rw [outcome_of_accepted_count h hcount] at hfail
        exact .refusal h hcount hfail
  · rintro (h | ⟨h, hcount⟩ | ⟨h, hcount, hrefuses⟩)
    · exact outcome_of_unknown h
    · exact outcome_of_refused_count h hcount
    · rw [outcome_of_accepted_count h hcount, hrefuses]

/-- An error of a call is stamped with the place of the call. -/
theorem isStamped_of_call {settings : Settings} {name : String} {arguments : List (Value α)}
    {site : CallSite} {e : Error} (h : settings.call name arguments site = .error e) :
    e.IsStamped site := by
  rw [call_eq_mapError] at h
  cases houtcome : settings.outcome name arguments site.function with
  | ok result =>
    rw [houtcome] at h
    cases h
  | error cause =>
    rw [houtcome] at h
    cases h
    exact site.isStamped_attach cause

/-- The errors of a call are the failures of the three kinds, stamped with the place of the call:
its span, whether known or not, and one frame with function, span and line.  An error is worded by
its cause, and shown with the function and, where it is known, the line of the call. -/
theorem call_eq_error_iff (settings : Settings) (name : String) (arguments : List (Value α))
    (site : CallSite) (e : Error) :
    settings.call name arguments site = .error e ↔
      e.IsStamped site ∧ settings.Failure name arguments site.function e.cause := by
  constructor
  · intro h
    exact ⟨isStamped_of_call h, outcome_eq_error_iff.1 (failsWith_iff.1 ⟨e, h, rfl⟩)⟩
  · rintro ⟨hstamped, hfailure⟩
    rw [call_eq_mapError, outcome_eq_error_iff.2 hfailure, hstamped.eq_attach]
    rfl

/-- `darken` names its caller in the cause, and the place of the call stands behind it. -/
example : (({} : Settings).call "DARKEN" [.keyword "red", .number 10]
      ⟨"Darken", some ⟨4, 9⟩, some 2⟩ : Except Error (Option (Value Rat))).mapError Error.text =
    .error ("Object of type Keyword passed to Darken function. Expecting `Color`. red" ++
      " (in Darken on line 2)") := by
  decide +kernel

end Settings

end StyleFunctions
