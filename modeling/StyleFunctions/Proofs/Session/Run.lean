import Mathlib.Tactic
import StyleFunctions.Session

/-!
# Runs of sessions

What a session answers to a step depends on the steps before only by the session that they lead
to (`Session.after`).

* `Session.getElem?_run` — an answer is that of one step, in the session after the steps before.
* `Session.loader_step` — a step changes the loader by what it is, never by what it gives.
-/

namespace StyleFunctions

variable {α : Type}

/-- The loader that a step leaves in the place of another. -/
def Step.loader (s : Step α) (loader : Loader) : Loader :=
  match s with
  | .configure settings => settings.loader
  | .insert path content => (loader.insert? path content).getD loader
  | .clear => loader.clear?.getD loader
  | .load _ | .has _ | .call _ _ _ => loader

namespace Session

variable [Scalar α]

/-- The session after steps were taken one after another. -/
def after (session : Session α) (steps : List (Step α)) : Session α :=
  steps.foldl (fun session s => (session.step s).1) session

theorem after_concat (session : Session α) (steps : List (Step α)) (s : Step α) :
    session.after (steps ++ [s]) = ((session.after steps).step s).1 := by
  rw [after, List.foldl_append]
  rfl

/-- An answer is that of one step, in the session after the steps before. -/
theorem getElem?_run (session : Session α) (steps : List (Step α)) (i : Nat) :
    (session.run steps)[i]? =
      steps[i]?.map fun s => ((session.after (steps.take i)).step s).2 := by
  induction steps generalizing session i with
  | nil => rfl
  | cons s rest ih =>
    cases i with
    | zero => rfl
    | succ i =>
      rw [run, List.getElem?_cons_succ, List.getElem?_cons_succ, List.take_succ_cons, ih]
      rfl

/-- A load is answered by the loader of that point. -/
theorem getElem?_run_of_load (session : Session α) {steps : List (Step α)} {i : Nat}
    {path : String} (hstep : steps[i]? = some (.load path)) :
    (session.run steps)[i]? =
      some (.loaded ((session.after (steps.take i)).settings.loader.load path)) := by
  rw [getElem?_run, hstep]
  rfl

/-- A call is answered under the settings of that point. -/
theorem getElem?_run_of_call (session : Session α) {steps : List (Step α)} {i : Nat}
    {name : String} {arguments : List (StepArgument α)} {site : CallSite} {values : List (Value α)}
    (hstep : steps[i]? = some (.call name arguments site))
    (hvalues : arguments.mapM (session.after (steps.take i)).argument? = some values) :
    (session.run steps)[i]? = some (.returned (session.after (steps.take i)).settings.css
      ((session.after (steps.take i)).settings.call name values site)) := by
  rw [getElem?_run, hstep, Option.map_some, step, respond, hvalues]

/-- The loader after a step.  Reads, questions and calls leave it as it is, whatever they give. -/
theorem loader_step (session : Session α) (s : Step α) :
    (session.step s).1.settings.loader = s.loader session.settings.loader := by
  rw [step]
  cases s with
  | configure settings => rfl
  | insert path content =>
    rw [respond, Step.loader]
    cases session.settings.loader.insert? path content <;> rfl
  | clear =>
    rw [respond, Step.loader]
    cases session.settings.loader.clear? <;> rfl
  | load path => rfl
  | has name => rfl
  | call name arguments site =>
    rw [respond]
    cases arguments.mapM session.argument? <;> rfl

end Session

end StyleFunctions
