import StyleFunctions.Function.Call

/-!
# Sessions

A session is a list of steps that follow one another: settings are replaced, files registered
and forgotten, loaded and embedded, and functions called with given values or with the results
of earlier calls.  Only the settings, with the loader in them, and the results so far pass from
one step to the next (`Session.step`).
-/

namespace StyleFunctions

/-- An argument of a step: a value, or the result of an earlier step. -/
inductive StepArgument (α : Type)
  | given (value : Value α)
  | result (step : Nat)
  deriving DecidableEq, Repr

/-- One step of a session. -/
inductive Step (α : Type)
  | configure (settings : Settings)
  | insert (path : String) (content : Bytes)
  | clear
  | load (path : String)
  | has (name : String)
  | call (name : String) (arguments : List (StepArgument α)) (site : CallSite)
  deriving DecidableEq, Repr

/-- What a step answers. -/
inductive Answer (α : Type)
  | configured (settings : Settings)
  | changed (done : Bool)
  | loaded (content : Except LoadError Bytes)
  | known (isFunction : Bool)
  | returned (css : CssOptions) (result : Except Error (Option (Value α)))
  | badReference

/-- What passes from one step to the next. -/
structure Session (α : Type) where
  settings : Settings := {}
  /-- For each step so far the value that it returned. -/
  results : List (Option (Value α)) := []

namespace Session

variable {α : Type}

/-- The value of an argument; a reference has to lead to an earlier step that returned one. -/
def argument? (session : Session α) : StepArgument α → Option (Value α)
  | .given value => some value
  | .result step => (session.results[step]?).join

/-- The session with another loader, if there is one. -/
def withLoader (session : Session α) : Option Loader → Session α × Answer α
  | some loader =>
    ({ session with settings := { session.settings with loader } }, .changed true)
  | none => (session, .changed false)

variable [Scalar α]

/-- The effect of a step on settings and loader, and its answer. -/
def respond (session : Session α) : Step α → Session α × Answer α
  | .configure settings => ({ session with settings }, .configured settings)
  | .insert path content => session.withLoader (session.settings.loader.insert? path content)
  | .clear => session.withLoader session.settings.loader.clear?
  | .load path => (session, .loaded (session.settings.loader.load path))
  | .has name => (session, .known (Builtin.isKnown name))
  | .call name arguments site =>
    match arguments.mapM session.argument? with
    | some values =>
      (session, .returned session.settings.css (session.settings.call name values site))
    | none => (session, .badReference)

/-- The value that an answer holds. -/
def answerValue? : Answer α → Option (Value α)
  | .returned _ (.ok value) => value
  | _ => none

/-- A step taken: its effect, its answer, and its value noted for later steps. -/
def step (session : Session α) (s : Step α) : Session α × Answer α :=
  let (next, answer) := session.respond s
  ({ next with results := next.results ++ [answerValue? answer] }, answer)

/-- The answers of steps taken one after another. -/
def run (session : Session α) : List (Step α) → List (Answer α)
  | [] => []
  | s :: rest =>
    let (next, answer) := session.step s
    answer :: next.run rest

end Session

end StyleFunctions
