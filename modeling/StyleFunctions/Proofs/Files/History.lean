import Mathlib.Tactic
import StyleFunctions.Proofs.Function.DataUrl
import StyleFunctions.Proofs.Session.Run

/-!
# A memory of files along a session

What a memory of files holds after any history is told by the history itself: for a path the
content that was registered last, unless all files were forgotten since (`Session.Serves`).

* `MemoryFiles.get?_insert` — a registered file replaces the one with its path and no other.
* `Session.Reflects.step` — one step keeps memory and history in agreement.
* `Session.reflects_after_take` — they agree at every point of a history on one loader.
* `Session.run_memory` — what is loaded, and what is embedded, at every such point.
-/

namespace StyleFunctions

/-! ## Registered files -/

namespace MemoryFiles

theorem lookup_filter_ne (files : List (String × Bytes)) {path other : String}
    (h : other ≠ path) :
    (files.filter fun f => f.1 != path).lookup other = files.lookup other := by
  induction files with
  | nil => rfl
  | cons f rest ih =>
    by_cases hpath : f.1 = path
    · have hother : (other == f.1) = false := beq_false_of_ne (hpath ▸ h)
      rw [List.filter_cons_of_neg (by simpa using hpath), ih, List.lookup_cons, hother]
    · rw [List.filter_cons_of_pos (by simpa using hpath), List.lookup_cons, List.lookup_cons, ih]

/-- A registered file replaces the one with its path and no other. -/
theorem get?_insert (memory : MemoryFiles) (path : String) (content : Bytes) (other : String) :
    (memory.insert path content).get? other =
      if other = path then some content else memory.get? other := by
  rw [get?, insert, List.lookup_cons]
  split_ifs with h
  · rw [h, beq_self_eq_true]
  · rw [beq_false_of_ne h]
    exact lookup_filter_ne memory.files h

theorem get?_empty (path : String) : ({} : MemoryFiles).get? path = none := rfl

end MemoryFiles

namespace Session

variable {α : Type}

/-! ## Histories -/

/-- The content registered last for a path, if nothing was forgotten since. -/
def Serves (past : List (Step α)) (path : String) (content : Bytes) : Prop :=
  ∃ earlier later, past = earlier ++ .insert path content :: later ∧
    .clear ∉ later ∧ ∀ content', .insert path content' ∉ later

theorem not_serves_nil (path : String) (content : Bytes) :
    ¬ Serves ([] : List (Step α)) path content := by
  rintro ⟨earlier, later, h, -⟩
  cases earlier <;> cases h

/-- One step more serves a file itself, or leaves one that is neither replaced nor forgotten. -/
theorem serves_concat_iff {past : List (Step α)} {s : Step α} {path : String} {content : Bytes} :
    Serves (past ++ [s]) path content ↔
      s = .insert path content ∨
        s ≠ .clear ∧ (∀ content', s ≠ .insert path content') ∧ Serves past path content := by
  constructor
  · rintro ⟨earlier, later, hpast, hclear, hinsert⟩
    obtain rfl | ⟨later, last, rfl⟩ := later.eq_nil_or_concat
    · obtain ⟨-, hlast⟩ := List.append_inj' hpast rfl
      exact Or.inl (List.singleton_inj.1 hlast)
    · rw [List.concat_eq_append, ← List.cons_append, ← List.append_assoc] at hpast
      obtain ⟨rfl, hlast⟩ := List.append_inj' hpast rfl
      obtain rfl := List.singleton_inj.1 hlast
      simp only [List.concat_eq_append, List.mem_append, List.mem_singleton, not_or]
        at hclear hinsert
      exact Or.inr ⟨Ne.symm hclear.2, fun content' => Ne.symm (hinsert content').2,
        earlier, later, rfl, hclear.1, fun content' => (hinsert content').1⟩
  · rintro (rfl | ⟨hclear, hinsert, earlier, later, rfl, hclear', hinsert'⟩)
    · exact ⟨past, [], rfl, List.not_mem_nil, fun _ => List.not_mem_nil⟩
    · refine ⟨earlier, later ++ [s], by simp, ?_, fun content' => ?_⟩
      · simpa using ⟨hclear', Ne.symm hclear⟩
      · simpa using ⟨hinsert' content', Ne.symm (hinsert content')⟩

/-- Files are loaded from a memory that holds what a history serves. -/
def Reflects (session : Session α) (past : List (Step α)) : Prop :=
  ∃ files, session.settings.loader = .memory files ∧
    ∀ path content, files.get? path = some content ↔ Serves past path content

section Loads

variable {session : Session α} {past : List (Step α)} {path : String}

/-- A file that is served is loaded. -/
theorem Reflects.load_eq_ok (h : session.Reflects past) {content : Bytes}
    (hserves : Serves past path content) : session.settings.loader.load path = .ok content := by
  obtain ⟨files, hloader, hfiles⟩ := h
  rw [hloader, Loader.load, (hfiles path content).2 hserves]

/-- A path that no file is served for is not found. -/
theorem Reflects.load_eq_notFound (h : session.Reflects past)
    (hnone : ∀ content, ¬ Serves past path content) :
    session.settings.loader.load path = .error (.notFound path) := by
  obtain ⟨files, hloader, hfiles⟩ := h
  have hget : files.get? path = none :=
    Option.eq_none_iff_forall_ne_some.2 fun content hsome =>
      hnone content ((hfiles path content).1 hsome)
  rw [hloader, Loader.load, hget]

end Loads

variable [Scalar α]

/-! ## Runs -/

/-- A history on one loader: new settings, if there are any, come with the loader as it is at that
point. -/
def OnOneLoader (session : Session α) (steps : List (Step α)) : Prop :=
  ∀ i settings, steps[i]? = some (.configure settings) →
    settings.loader = (session.after (steps.take i)).settings.loader

/-- One step keeps memory and history in agreement. -/
theorem Reflects.step {session : Session α} {past : List (Step α)} (h : session.Reflects past)
    {s : Step α} (hkeeps : ∀ settings, s = .configure settings →
      settings.loader = session.settings.loader) :
    (session.step s).1.Reflects (past ++ [s]) := by
  obtain ⟨files, hloader, hfiles⟩ := h
  rw [Reflects, loader_step, hloader]
  cases s with
  | configure settings =>
    refine ⟨files, (hkeeps settings rfl).trans hloader, fun path content => ?_⟩
    rw [hfiles, serves_concat_iff]
    simp
  | insert path content =>
    refine ⟨files.insert path content, rfl, fun other content' => ?_⟩
    rw [MemoryFiles.get?_insert, serves_concat_iff, ← hfiles]
    by_cases hpath : other = path
    · simp [hpath]
    · simp [hpath, Ne.symm hpath]
  | clear =>
    refine ⟨{}, rfl, fun path content => ?_⟩
    rw [MemoryFiles.get?_empty, serves_concat_iff]
    simp
  | load _ | has _ | call _ _ _ =>
    refine ⟨files, rfl, fun path content => ?_⟩
    rw [hfiles, serves_concat_iff]
    simp

/-- Memory and history agree at every point of a history on one loader. -/
theorem reflects_after_take {session : Session α} {steps : List (Step α)}
    (hstart : session.settings.loader = .memory {}) (hone : session.OnOneLoader steps) (i : Nat) :
    (session.after (steps.take i)).Reflects (steps.take i) := by
  induction i with
  | zero => exact ⟨{}, hstart, fun path content => iff_of_false nofun (not_serves_nil path content)⟩
  | succ i ih =>
    rw [List.take_add_one]
    cases hstep : steps[i]? with
    | none => rwa [Option.toList_none, List.append_nil]
    | some s =>
      rw [Option.toList_some, after_concat]
      refine ih.step fun settings hs => hone i settings ?_
      rw [hstep, hs]

/-! ## Answers -/

section Answers

variable {session : Session α} {past : List (Step α)} {name : String} {first : Value α}
  {path : Option (Value α)}

/-- Where files may be read, a file that is served is embedded, unless it is empty. -/
theorem Reflects.call_eq_text (h : session.Reflects past) (hmode : session.settings.mode = .compile)
    (hname : Builtin.canonicalName name = Builtin.dataUrl.name) (site : CallSite)
    {content : Bytes} (hserves : Serves past (DataUrl.requested first path) content)
    (hcontent : content ≠ []) :
    session.settings.call name (first :: path.toList) site =
      .ok (some (.url (.anonymous (DataUrl.text first.rawText content)))) := by
  have hfinds : DataUrl.Finds session.settings.mode session.settings.loader
      (DataUrl.requested first path) content :=
    ⟨by rw [hmode, EvalMode.allowsFiles], h.load_eq_ok hserves, hcontent⟩
  rw [Settings.call_eq_embed _ hname, DataUrl.embed_of_finds hfinds]

/-- The reference stays to a path that no file is served for, or an empty one. -/
theorem Reflects.call_eq_requested (h : session.Reflects past)
    (hname : Builtin.canonicalName name = Builtin.dataUrl.name) (site : CallSite)
    (hnone : ∀ content, Serves past (DataUrl.requested first path) content → content = []) :
    session.settings.call name (first :: path.toList) site =
      .ok (some (.url (.anonymous (DataUrl.requested first path)))) := by
  rw [Settings.call_eq_embed _ hname, DataUrl.embed_of_not_finds]
  rintro content ⟨-, hload, hcontent⟩
  by_cases hserved : ∃ served, Serves past (DataUrl.requested first path) served
  · obtain ⟨served, hserved⟩ := hserved
    rw [h.load_eq_ok hserved, hnone served hserved] at hload
    exact hcontent (Except.ok.inj hload).symm
  · rw [h.load_eq_notFound (not_exists.1 hserved)] at hload
    cases hload

end Answers

/-- At every point of a history on one loader, a memory without files at first, a load gives the
content registered last for its path and not forgotten since, and says that the path is not found
if there is none.  Where files may be read, a call gives a data URL that tells that same content,
and the reference to the file if there is none or it is empty. -/
theorem run_memory (session : Session α) (steps : List (Step α))
    (hstart : session.settings.loader = .memory {}) (hone : session.OnOneLoader steps) (i : Nat) :
    (∀ path, steps[i]? = some (.load path) →
      (∀ content, Serves (steps.take i) path content →
        (session.run steps)[i]? = some (.loaded (.ok content))) ∧
      ((∀ content, ¬ Serves (steps.take i) path content) →
        (session.run steps)[i]? = some (.loaded (.error (.notFound path))))) ∧
    ∀ (name : String) (arguments : List (StepArgument α)) (site : CallSite) (first : Value α)
      (path : Option (Value α)),
      steps[i]? = some (.call name arguments site) →
      Builtin.canonicalName name = Builtin.dataUrl.name →
      arguments.mapM (session.after (steps.take i)).argument? = some (first :: path.toList) →
      (session.after (steps.take i)).settings.mode = .compile →
      let css := (session.after (steps.take i)).settings.css
      let requested := DataUrl.requested first path
      (∀ content, Serves (steps.take i) requested content → content ≠ [] →
        ∃ text payload,
          (session.run steps)[i]? = some (.returned css (.ok (some (.url (.anonymous text))))) ∧
          DataUrl.IsDataUrl first.rawText content text payload) ∧
      ((∀ content, Serves (steps.take i) requested content → content = []) →
        (session.run steps)[i]? =
          some (.returned css (.ok (some (.url (.anonymous requested)))))) := by
  have hreflects := reflects_after_take hstart hone i
  constructor
  · intro path hstep
    constructor
    · intro content hserves
      rw [session.getElem?_run_of_load hstep, hreflects.load_eq_ok hserves]
    · intro hnone
      rw [session.getElem?_run_of_load hstep, hreflects.load_eq_notFound hnone]
  · intro name arguments site first path hstep hname hvalues hmode css requested
    constructor
    · intro content hserves hcontent
      refine ⟨_, _, ?_, DataUrl.isDataUrl_text first.rawText content⟩
      rw [session.getElem?_run_of_call hstep hvalues,
        hreflects.call_eq_text hmode hname site hserves hcontent]
    · intro hnone
      rw [session.getElem?_run_of_call hstep hvalues,
        hreflects.call_eq_requested hname site hnone]

/-- A file that is replaced, other settings around the loader, and a file that is forgotten and
comes back empty. -/
theorem run_memory_logo :
    let session : Session Rat := { settings := { mode := .sandboxed, loader := .memory {} } }
    let logo : Bytes := [0x2C, 3]
    let compile : Settings :=
      ⟨.compile, { compress := true }, .memory ⟨[("logo", logo), ("icon", [9])]⟩⟩
    let steps : List (Step Rat) :=
      [.insert "logo" [1], .insert "icon" [9], .insert "logo" logo, .load "logo",
        .configure compile, .call "DataURI" [.given (.string "logo")] ⟨"f", none, none⟩, .clear,
        .load "icon", .insert "icon" [],
        .call "datauri" [.given (.string "a/b"), .given (.string "icon")] ⟨"f", none, none⟩]
    session.settings.loader = .memory {} ∧ session.OnOneLoader steps ∧
    (session.run steps)[3]? = some (.loaded (.ok logo)) ∧
    (session.run steps)[5]? = some (.returned { compress := true }
      (.ok (some (.url (.anonymous "'data:logo,%2C%03'"))))) ∧
    (∃ payload, DataUrl.IsDataUrl "logo" logo "'data:logo,%2C%03'" payload) ∧
    (session.run steps)[7]? = some (.loaded (.error (.notFound "icon"))) ∧
    (session.run steps)[9]? = some (.returned { compress := true }
      (.ok (some (.url (.anonymous "icon"))))) := by
  intro session logo compile steps
  have hstart : session.settings.loader = .memory {} := rfl
  have hone : session.OnOneLoader steps := by
    intro i settings h
    have hi : i < 10 := (List.getElem?_eq_some_iff.1 h).1
    interval_cases i <;> cases h
    rfl
  have hreplaced (later : List (Step Rat)) (hclear : .clear ∉ later)
      (hinsert : ∀ content, .insert "logo" content ∉ later) :
      Serves ([.insert "logo" [1], .insert "icon" [9]] ++ .insert "logo" logo :: later) "logo"
        logo := ⟨_, later, rfl, hclear, hinsert⟩
  have hforgotten (content : Bytes) : ¬ Serves (steps.take 7) "icon" content := by
    rw [show steps.take 7 = steps.take 6 ++ [.clear] from rfl, serves_concat_iff]
    simp
  have hempty (content : Bytes) (h : Serves (steps.take 9) "icon" content) : content = [] := by
    rw [show steps.take 9 = steps.take 8 ++ [.insert "icon" []] from rfl, serves_concat_iff] at h
    obtain h | ⟨-, h, -⟩ := h
    · cases h
      rfl
    · exact absurd rfl (h [])
  have hloads (i : Nat) := (run_memory session steps hstart hone i).1
  have hcalls (i : Nat) := (run_memory session steps hstart hone i).2
  obtain ⟨text, payload, hanswer, hurl⟩ :=
    (hcalls 5 "DataURI" _ _ (.string "logo") none rfl (by decide) rfl rfl).1 logo
      (hreplaced [.load "logo", .configure compile] (by simp) (by simp)) (by decide)
  -- the text that the history leads to, computed
  have hcomputed : (session.run steps)[5]? = some (.returned { compress := true }
      (.ok (some (.url (.anonymous "'data:logo,%2C%03'"))))) := by
    with_unfolding_all rfl
  obtain rfl : text = "'data:logo,%2C%03'" := by
    rw [hcomputed] at hanswer
    cases hanswer
    rfl
  exact ⟨hstart, hone, (hloads 3 "logo" rfl).1 logo (hreplaced [] (by simp) (by simp)), hanswer,
    ⟨payload, hurl⟩, (hloads 7 "icon" rfl).2 hforgotten,
    (hcalls 9 "datauri" _ _ (.string "a/b") (some (.string "icon")) rfl (by decide) rfl rfl).2
      hempty⟩

end Session

end StyleFunctions
