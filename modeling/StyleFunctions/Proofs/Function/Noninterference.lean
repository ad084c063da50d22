import StyleFunctions.Number.Exact
import StyleFunctions.Proofs.Function.Dispatch

/-!
# What calls can learn from the settings

Two calls with the same arguments differ only in what their function sees of the settings
(`Builtin.SameView`): the embedding of files sees the contents that may be read, two functions
that put values into text see the CSS options, and all others see nothing.

* `Builtin.apply_eq_of_sameView` — a function does the same under settings that look the same to
  it, whether it succeeds or fails.
* `Settings.call_noninterference` — calls by name do not tell settings apart by their files where
  files may not be read, nor by their CSS options but for the two functions named.
-/

namespace StyleFunctions

namespace Builtin

/-- Two settings look the same to a function. -/
def SameView (s₁ s₂ : Settings) : Builtin → Prop
  | unit | format => s₁.css = s₂.css
  | dataUrl => ∀ path, DataUrl.content? s₁.mode s₁.loader path =
      DataUrl.content? s₂.mode s₂.loader path
  | _ => True

variable {s₁ s₂ : Settings}

/-- Nothing can be read in the sandbox. -/
theorem sameView_of_sandboxed (hcss : s₁.css = s₂.css) (h₁ : s₁.mode = .sandboxed)
    (h₂ : s₂.mode = .sandboxed) (f : Builtin) : f.SameView s₁ s₂ := by
  cases f with
  | unit | format => exact hcss
  | dataUrl =>
    intro path
    rw [h₁, h₂]
    rfl
  | _ => exact trivial

theorem sameView_of_ne_dataUrl (hcss : s₁.css = s₂.css) {f : Builtin} (hf : f ≠ dataUrl) :
    f.SameView s₁ s₂ := by
  cases f with
  | unit | format => exact hcss
  | dataUrl => exact absurd rfl hf
  | _ => exact trivial

theorem sameView_of_blind {f : Builtin} (hdata : f ≠ dataUrl) (hunit : f ≠ unit)
    (hformat : f ≠ format) : f.SameView s₁ s₂ := by
  cases f with
  | unit => exact absurd rfl hunit
  | format => exact absurd rfl hformat
  | dataUrl => exact absurd rfl hdata
  | _ => exact trivial

variable {α : Type} [Scalar α]

theorem embed_eq_of_sameView (h : dataUrl.SameView s₁ s₂) (first : Value α)
    (path : Option (Value α)) :
    DataUrl.embed s₁.mode s₁.loader first path = DataUrl.embed s₂.mode s₂.loader first path := by
  have hcontent : ∀ path, DataUrl.content? s₁.mode s₁.loader path =
      DataUrl.content? s₂.mode s₂.loader path := h
  simp only [DataUrl.embed, hcontent]

/-- A function does the same under settings that look the same to it. -/
theorem apply_eq_of_sameView {f : Builtin} (h : f.SameView s₁ s₂) (caller : String)
    (arguments : List (Value α)) : f.apply s₁ caller arguments = f.apply s₂ caller arguments := by
  cases f with
  | unit | format =>
    have hcss : s₁.css = s₂.css := h
    simp only [apply, hcss]
  | dataUrl => simp only [apply, embed_eq_of_sameView h]
  | math f => cases f <;> rfl
  | _ => rfl

end Builtin

namespace Settings

variable {α : Type} [Scalar α] {s₁ s₂ : Settings}

/-- Calls agree where the function that the name leads to, if any, sees no difference. -/
theorem call_eq_of_sameView {name : String}
    (h : ∀ f : Builtin, Builtin.canonicalName name = f.name → f.SameView s₁ s₂)
    (arguments : List (Value α)) (site : CallSite) :
    s₁.call name arguments site = s₂.call name arguments site := by
  have houtcome : s₁.outcome name arguments site.function =
      s₂.outcome name arguments site.function := by
    cases hlookup : Builtin.lookup? name with
    | none => rw [outcome_of_unknown hlookup, outcome_of_unknown hlookup]
    | some f =>
      have hview := h f (Builtin.lookup?_eq_some_iff.1 hlookup)
      cases hcount : f.arity.accepts arguments.length with
      | false =>
        rw [outcome_of_refused_count hlookup hcount, outcome_of_refused_count hlookup hcount]
      | true =>
        rw [outcome_of_accepted_count hlookup hcount, outcome_of_accepted_count hlookup hcount,
          Builtin.apply_eq_of_sameView hview]
  rw [call, call, houtcome]

/-- A call gives the same value, the same lack of one or the same error under settings with the
same CSS options, if it does not embed a file or may not read one; and under any two settings, if
it neither embeds a file nor replaces a unit nor fills in a template.  So nothing that is called
where files may not be read depends on a file. -/
theorem call_noninterference (s₁ s₂ : Settings) (name : String) (arguments : List (Value α))
    (site : CallSite) :
    (s₁.css = s₂.css →
      Builtin.canonicalName name ≠ "datauri" ∨ s₁.mode = .sandboxed ∧ s₂.mode = .sandboxed →
      s₁.call name arguments site = s₂.call name arguments site) ∧
    (Builtin.canonicalName name ∉ ["datauri", "unit", "_percent"] →
      s₁.call name arguments site = s₂.call name arguments site) ∧
    (s₁.mode = .sandboxed → ∀ loader : Loader,
      { s₁ with loader }.call name arguments site = s₁.call name arguments site) := by
  refine ⟨?_, ?_, ?_⟩
  · rintro hcss (hname | ⟨h₁, h₂⟩)
    · refine call_eq_of_sameView (fun f hf => Builtin.sameView_of_ne_dataUrl hcss ?_) arguments site
      rintro rfl
      exact hname hf
    · exact call_eq_of_sameView (fun f _ => Builtin.sameView_of_sandboxed hcss h₁ h₂ f) arguments
        site
  · intro hname
    have hne {f g : Builtin} (hf : Builtin.canonicalName name = f.name)
        (hg : g.name ∈ ["datauri", "unit", "_percent"]) : f ≠ g := by
      rintro rfl
      rw [hf] at hname
      exact hname hg
    refine call_eq_of_sameView (fun f hf => ?_) arguments site
    exact Builtin.sameView_of_blind (hne hf (by decide)) (hne hf (by decide)) (hne hf (by decide))
  · intro hmode loader
    have hmode' : ({ s₁ with loader } : Settings).mode = .sandboxed := hmode
    have hcss : ({ s₁ with loader } : Settings).css = s₁.css := rfl
    exact call_eq_of_sameView (fun f _ => Builtin.sameView_of_sandboxed hcss hmode' hmode f)
      arguments site

/-- A file asked for in the sandbox, whether there is one or not, and a blend that meets a
string, under laid out and compressed CSS. -/
theorem call_noninterference_logo :
    let empty : Settings := ⟨.sandboxed, {}, .memory {}⟩
    let full : Settings := ⟨.sandboxed, {}, .memory ⟨[("logo", [1])]⟩⟩
    let compressed : Settings := ⟨.compile, { compress := true }, .denied⟩
    let site : CallSite := ⟨"f", none, none⟩
    let logo : Value Rat := .string "logo"
    let grey : Value Rat := .color ⟨16, 16, 16, 1⟩
    (empty.css = full.css ∧ empty.mode = .sandboxed ∧ full.mode = .sandboxed ∧
      empty.call "datauri" [logo] site = full.call "datauri" [logo] site) ∧
    Builtin.canonicalName "Screen" ∉ ["datauri", "unit", "_percent"] ∧
    empty.call "Screen" [grey, logo] site = compressed.call "Screen" [grey, logo] site ∧
    ∀ loader : Loader,
      { empty with loader }.call "datauri" [logo] site = empty.call "datauri" [logo] site := by
  intro empty full compressed site logo grey
  have hname : Builtin.canonicalName "Screen" ∉ ["datauri", "unit", "_percent"] := by decide
  refine ⟨⟨rfl, rfl, rfl, ?_⟩, hname, ?_, ?_⟩
  · exact (call_noninterference empty full "datauri" [logo] site).1 rfl (Or.inr ⟨rfl, rfl⟩)
  · exact (call_noninterference empty compressed "Screen" [grey, logo] site).2.1 hname
  · exact (call_noninterference empty full "datauri" [logo] site).2.2 rfl

end Settings

end StyleFunctions
