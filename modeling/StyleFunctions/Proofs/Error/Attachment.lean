import Mathlib.Tactic
import StyleFunctions.Error

/-!
# Errors on their way out of nested calls

An error that leaves nested calls meets one call site after another (`Error.attachAll`).  Its span
and its frames follow rules of their own: the first known span stays, and so do the first frames,
so that the two may come from different calls.

* `CallSite.attach_of_frames`, `CallSite.attach_of_no_frames` — what one call site adds.
* `Error.attachAll_of_frames` — once there are frames, only a missing span is still filled in.
* `Error.attachAll_keeps_precise` — what is known of an error after any number of call sites.
-/

namespace StyleFunctions

/-! ## One call site -/

/-- The frames of an error; there are none without a backtrace. -/
def Error.frames (e : Error) : List Frame := e.backtrace.getD []

namespace CallSite

/-- Frames stay, and a span that is missing is filled in. -/
theorem attach_of_frames (site : CallSite) {e : Error} (h : e.frames ≠ []) :
    site.attach e = { e with span := e.span.or site.span } := by
  obtain ⟨diagnosis, span, - | - | ⟨first, rest⟩⟩ := e
  · exact absurd rfl h
  · exact absurd rfl h
  · rfl

/-- A backtrace without frames counts for as little as none at all. -/
theorem attach_of_no_frames (site : CallSite) {e : Error} (h : e.frames = []) :
    site.attach e =
      { e with span := e.span.or site.span, backtrace := some [site.frame] } := by
  obtain ⟨diagnosis, span, - | - | ⟨first, rest⟩⟩ := e
  · rfl
  · rfl
  · cases h

theorem frames_attach_ne_nil (site : CallSite) (e : Error) : (site.attach e).frames ≠ [] := by
  by_cases h : e.frames = []
  · rw [site.attach_of_no_frames h]
    exact List.cons_ne_nil site.frame []
  · rw [site.attach_of_frames h]
    exact h

end CallSite

/-! ## Chains of call sites -/

namespace Error

/-- An error after call sites were noted in it, one after another. -/
def attachAll (e : Error) (sites : List CallSite) : Error :=
  sites.foldl (fun e site => site.attach e) e

/-- The first span that is known, of an error itself and then of the call sites in order. -/
def firstSpan? (e : Error) (sites : List CallSite) : Option Span :=
  (e.span :: sites.map CallSite.span).findSome? id

theorem attachAll_cons (e : Error) (site : CallSite) (later : List CallSite) :
    e.attachAll (site :: later) = (site.attach e).attachAll later := rfl

theorem attachAll_append (e : Error) (sites later : List CallSite) :
    e.attachAll (sites ++ later) = (e.attachAll sites).attachAll later := List.foldl_append

theorem firstSpan?_nil (e : Error) : e.firstSpan? [] = e.span := by
  cases h : e.span <;> simp [firstSpan?, h]

theorem firstSpan?_attach (e : Error) (site : CallSite) (later : List CallSite) :
    (site.attach e).firstSpan? later = e.firstSpan? (site :: later) := by
  cases h : e.span <;> simp [firstSpan?, CallSite.attach, h]

/-- From the first frames on, a chain only fills in a span that is missing. -/
theorem attachAll_of_frames {e : Error} (h : e.frames ≠ []) (sites : List CallSite) :
    e.attachAll sites = { e with span := e.firstSpan? sites } := by
  induction sites generalizing e with
  | nil => rw [firstSpan?_nil, attachAll, List.foldl_nil]
  | cons site later ih =>
    rw [attachAll_cons, ih (site.frames_attach_ne_nil e), firstSpan?_attach,
      site.attach_of_frames h]

/-- The first call site of a chain settles the frames. -/
theorem attachAll_eq_of_cons (e : Error) (first : CallSite) (later : List CallSite) :
    e.attachAll (first :: later) =
      { first.attach e with span := e.firstSpan? (first :: later) } := by
  rw [attachAll_cons, attachAll_of_frames (first.frames_attach_ne_nil e), firstSpan?_attach]

theorem span_attachAll (e : Error) (sites : List CallSite) :
    (e.attachAll sites).span = e.firstSpan? sites := by
  cases sites with
  | nil => rw [firstSpan?_nil, attachAll, List.foldl_nil]
  | cons first later => rw [attachAll_eq_of_cons]

theorem toDiagnosis_attachAll (e : Error) (sites : List CallSite) :
    (e.attachAll sites).toDiagnosis = e.toDiagnosis := by
  cases sites with
  | nil => rfl
  | cons first later =>
    rw [attachAll_eq_of_cons]
    rfl

theorem frames_attachAll_ne_nil (e : Error) {sites : List CallSite} (h : sites ≠ []) :
    (e.attachAll sites).frames ≠ [] := by
  cases sites with
  | nil => exact absurd rfl h
  | cons first later =>
    rw [attachAll_eq_of_cons]
    exact first.frames_attach_ne_nil e

/-- A call site that was noted before adds nothing. -/
theorem attach_attachAll_of_mem (e : Error) {site : CallSite} {sites : List CallSite}
    (h : site ∈ sites) : site.attach (e.attachAll sites) = e.attachAll sites := by
  rw [site.attach_of_frames (e.frames_attachAll_ne_nil (List.ne_nil_of_mem h))]
  have hspan : (e.attachAll sites).span.or site.span = (e.attachAll sites).span := by
    cases hfirst : (e.attachAll sites).span with
    | some span => rfl
    | none =>
      -- No span was known in the whole chain, and so none at this call site.
      rw [span_attachAll, firstSpan?, List.findSome?_eq_none_iff] at hfirst
      exact hfirst site.span (List.mem_cons_of_mem e.span (List.mem_map_of_mem h))
  rw [hspan]

/-- A chain of call sites leaves cause and message as they are.  The span is the first that is
known, of the error itself and then of the call sites in order; the frames are those of the error,
if it has any, and else the one of the first call site.  So no call site behind the first changes
the frames, and a call site noted twice counts once, at once or later in the chain. -/
theorem attachAll_keeps_precise (e : Error) (sites : List CallSite) :
    (e.attachAll sites).cause = e.cause ∧
    (e.attachAll sites).message = e.message ∧
    (e.attachAll sites).span = (e.span :: sites.map CallSite.span).findSome? id ∧
    (e.frames ≠ [] → (e.attachAll sites).backtrace = e.backtrace) ∧
    (∀ first later, e.frames = [] → sites = first :: later →
      (e.attachAll sites).backtrace = some [first.frame]) ∧
    (sites = [] → e.attachAll sites = e) ∧
    (sites ≠ [] → ∀ later,
      (e.attachAll (sites ++ later)).backtrace = (e.attachAll sites).backtrace) ∧
    (∀ site ∈ sites, e.attachAll (sites ++ [site]) = e.attachAll sites) ∧
    ∀ site : CallSite, site.attach (site.attach e) = site.attach e := by
  refine ⟨congrArg Diagnosis.cause (e.toDiagnosis_attachAll sites),
    congrArg Diagnosis.message (e.toDiagnosis_attachAll sites), e.span_attachAll sites,
    ?_, ?_, ?_, ?_, ?_, ?_⟩
  · intro hframes
    rw [attachAll_of_frames hframes]
  · rintro first later hframes rfl
    rw [attachAll_eq_of_cons, first.attach_of_no_frames hframes]
  · rintro rfl
    rfl
  · intro hsites later
    rw [attachAll_append, attachAll_of_frames (e.frames_attachAll_ne_nil hsites)]
  · intro site hsite
    rw [attachAll_append]
    exact e.attach_attachAll_of_mem hsite
  · intro site
    exact e.attach_attachAll_of_mem (List.mem_singleton_self site)

/-- An error in words of its own, without a span and with a backtrace that is empty: the frame
comes from the first call site and the span from the second.  The frame of another error stays. -/
theorem attachAll_keeps_precise_tint :
    let e : Error := { cause := .moduloByZero, message := "no remainder", backtrace := some [] }
    let traced : Error := { e with backtrace := some [⟨"shade", none, none⟩] }
    let mod : CallSite := ⟨"mod", none, some 3⟩
    let tint : CallSite := ⟨"tint", some ⟨4, 9⟩, none⟩
    let mix : CallSite := ⟨"mix", some ⟨0, 12⟩, some 1⟩
    e.frames = [] ∧ traced.frames ≠ [] ∧
    (e.attachAll [mod, tint, mix]).message = "no remainder" ∧
    (e.attachAll [mod, tint, mix]).span = some ⟨4, 9⟩ ∧
    (e.attachAll [mod, tint, mix]).backtrace = some [⟨"mod", none, some 3⟩] ∧
    (e.attachAll ([mod] ++ [tint, mix])).backtrace = (e.attachAll [mod]).backtrace ∧
    e.attachAll ([mod, tint, mix] ++ [tint]) = e.attachAll [mod, tint, mix] ∧
    (traced.attachAll [mod, tint, mix]).backtrace = some [⟨"shade", none, none⟩] := by
  intro e traced mod tint mix
  have hframes : e.frames = [] := rfl
  have htraced : traced.frames ≠ [] := List.cons_ne_nil _ _
  obtain ⟨-, hmessage, hspan, -, hfirst, -, -, htwice, -⟩ :=
    attachAll_keeps_precise e [mod, tint, mix]
  obtain ⟨-, -, -, -, -, -, hlater, -, -⟩ := attachAll_keeps_precise e [mod]
  obtain ⟨-, -, -, hkept, -, -, -, -, -⟩ := attachAll_keeps_precise traced [mod, tint, mix]
  exact ⟨hframes, htraced, hmessage, hspan, hfirst mod [tint, mix] hframes rfl,
    hlater (List.cons_ne_nil mod []) [tint, mix], htwice tint (by simp), hkept htraced⟩

end Error

end StyleFunctions
