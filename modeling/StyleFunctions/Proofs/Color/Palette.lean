import Mathlib.Tactic
import StyleFunctions.Proofs.Color.Defined

/-!
# Palettes

A palette is the list of the colours that have been produced so far.  Each step adds a colour to
it: one made from components, or one made of colours that are there already.

* `Palette.extend` and `Palette.run` — one step, and steps one after another.
* `PaletteStep.Admissible` — steps that may be taken: amounts are free, and only components and
  the weights of mixtures are bounded.
* `Palette.inGamut_extend` and `Palette.extend_checked` — an admissible step keeps a palette in
  gamut and divides by no zero.
* `Palette.run_inGamut` — so does every run.
-/

namespace StyleFunctions

open Checked

/-- A step that adds a colour to a palette.  Earlier colours are named by their places. -/
inductive PaletteStep (α : Type)
  | construct (f : Construction) (x y z alpha : α)
  | adjust (f : Adjustment) (source : Nat) (amount : Dimension α)
  | greyscale (source : Nat)
  | mix (first second : Nat) (weight : Option (Dimension α))
  deriving Repr

/-- The colours produced so far, in their order. -/
abbrev Palette (α : Type) := List (Color α)

/-! ## Steps -/

namespace PaletteStep

section

variable {α : Type} [Scalar α]

/-- The colour that a step produces, if the places that it names are taken. -/
def color? (palette : Palette α) : PaletteStep α → Option (Color α)
  | construct f x y z alpha => some (f.build x y z alpha)
  | adjust f source amount => palette[source]?.map fun c => f.apply c amount
  | greyscale source => palette[source]?.map Color.greyscale
  | mix first second weight => do
    return Color.mix (← palette[first]?) (← palette[second]?) weight

end

/-- A step with a function applied to its numbers. -/
def map {α β : Type} (g : α → β) : PaletteStep α → PaletteStep β
  | construct f x y z alpha => construct f (g x) (g y) (g z) (g alpha)
  | adjust f source amount => adjust f source (amount.map g)
  | greyscale source => greyscale source
  | mix first second weight => mix first second (weight.map (Dimension.map g))

/-- Components in bounds, and weights of mixtures from 0 to 100 percent.  All other amounts are
free. -/
def Admissible : PaletteStep Rat → Prop
  | construct f x y z alpha => f.InBounds x y z alpha
  | adjust f _ amount => f.Allows amount
  | greyscale _ => True
  | mix _ _ weight => ∀ w, weight = some w → 0 ≤ w.value ∧ w.value ≤ 100

variable {palette : Palette Rat} {s : PaletteStep Rat}

theorem Admissible.inGamut_color? (hs : s.Admissible) (hpalette : ∀ c ∈ palette, c.InGamut)
    {c : Color Rat} (h : s.color? palette = some c) : c.InGamut := by
  have hplace {i : Nat} {c : Color Rat} (hi : palette[i]? = some c) : c.InGamut :=
    hpalette c (List.mem_of_getElem? hi)
  cases s with
  | construct f x y z alpha =>
    cases h
    exact Construction.InBounds.inGamut_build hs
  | adjust f source amount =>
    obtain ⟨earlier, hi, rfl⟩ := Option.map_eq_some_iff.1 h
    exact Adjustment.Allows.inGamut_apply hs (hplace hi)
  | greyscale source =>
    obtain ⟨earlier, hi, rfl⟩ := Option.map_eq_some_iff.1 h
    exact (hplace hi).greyscale
  | mix first second weight =>
    obtain ⟨a, ha, hrest⟩ := Option.bind_eq_some_iff.1 h
    obtain ⟨b, hb, hc⟩ := Option.bind_eq_some_iff.1 hrest
    cases hc
    exact (hplace ha).mix (hplace hb) hs

/-- What divides by no zero on any colour of a palette does so on none that a place names. -/
theorem map_getElem?_checked {f : Color Rat → Color Rat} {g : Color Checked → Color Checked}
    (h : ∀ c ∈ palette, g (c.map exact) = (f c).map exact) (i : Nat) :
    (palette.map (Color.map exact))[i]?.map g = (palette[i]?.map f).map (Color.map exact) := by
  rw [List.getElem?_map]
  cases hi : palette[i]? with
  | none => rfl
  | some c => exact congrArg some (h c (List.mem_of_getElem? hi))

/-- On colours in gamut no step divides by zero. -/
theorem color?_checked (hpalette : ∀ c ∈ palette, c.InGamut) (s : PaletteStep Rat) :
    (s.map exact).color? (palette.map (Color.map exact)) =
      (s.color? palette).map (Color.map exact) := by
  have hhsl : ∀ c ∈ palette, c.HasHsl := fun c hc => (hpalette c hc).inRange.hasHsl
  cases s with
  | construct f x y z alpha => exact congrArg some (f.build_checked x y z alpha)
  | adjust f source amount =>
    exact map_getElem?_checked (fun c hc => f.apply_checked amount (hhsl c hc)) source
  | greyscale source =>
    exact map_getElem?_checked (fun c hc => Color.greyscale_checked (hhsl c hc)) source
  | mix first second weight =>
    simp only [map, color?, List.getElem?_map]
    cases palette[first]? with
    | none => rfl
    | some a =>
      cases palette[second]? with
      | none => rfl
      | some b => exact congrArg some (Color.mix_checked a b weight)

end PaletteStep

/-! ## Runs -/

namespace Palette

section

variable {α : Type} [Scalar α]

/-- The palette after a step; a step that names a place that is not taken adds nothing. -/
def extend (palette : Palette α) (s : PaletteStep α) : Palette α :=
  palette ++ (s.color? palette).toList

/-- The palette after steps taken one after another. -/
def run (palette : Palette α) (steps : List (PaletteStep α)) : Palette α :=
  steps.foldl extend palette

end

variable {palette : Palette Rat}

/-- An admissible step keeps a palette in gamut. -/
theorem inGamut_extend (hpalette : ∀ c ∈ palette, c.InGamut) {s : PaletteStep Rat}
    (hs : s.Admissible) : ∀ c ∈ extend palette s, c.InGamut := by
  intro c hc
  rcases List.mem_append.1 hc with hold | hnew
  · exact hpalette c hold
  · exact hs.inGamut_color? hpalette (Option.mem_toList.1 hnew)

theorem extend_checked (hpalette : ∀ c ∈ palette, c.InGamut) (s : PaletteStep Rat) :
    extend (palette.map (Color.map exact)) (s.map exact) =
      (extend palette s).map (Color.map exact) := by
  rw [extend, PaletteStep.color?_checked hpalette, extend, List.map_append]
  cases s.color? palette <;> rfl

theorem inGamut_run (hpalette : ∀ c ∈ palette, c.InGamut) {steps : List (PaletteStep Rat)}
    (hsteps : ∀ s ∈ steps, s.Admissible) : ∀ c ∈ run palette steps, c.InGamut := by
  induction steps generalizing palette with
  | nil => exact hpalette
  | cons s rest ih =>
    obtain ⟨hs, hrest⟩ := List.forall_mem_cons.1 hsteps
    exact ih (inGamut_extend hpalette hs) hrest

theorem run_checked (hpalette : ∀ c ∈ palette, c.InGamut) {steps : List (PaletteStep Rat)}
    (hsteps : ∀ s ∈ steps, s.Admissible) :
    run (palette.map (Color.map exact)) (steps.map (PaletteStep.map exact)) =
      (run palette steps).map (Color.map exact) := by
  induction steps generalizing palette with
  | nil => rfl
  | cons s rest ih =>
    obtain ⟨hs, hrest⟩ := List.forall_mem_cons.1 hsteps
    -- The other steps start from a palette in gamut again, which is what `ih` needs.
    have hnext := ih (inGamut_extend hpalette hs) hrest
    rw [← extend_checked hpalette] at hnext
    exact hnext

/-- From colours in gamut, and from bounded components, every run of admissible steps leads to
colours in gamut only.  None of its steps divides by zero: over checked numbers it gives the same
colours, and every colour on the way has hue, saturation and lightness. -/
theorem run_inGamut (hpalette : ∀ c ∈ palette, c.InGamut) {steps : List (PaletteStep Rat)}
    (hsteps : ∀ s ∈ steps, s.Admissible) :
    (∀ c ∈ run palette steps, c.InGamut ∧ c.HasHsl) ∧
      run (palette.map (Color.map exact)) (steps.map (PaletteStep.map exact)) =
        (run palette steps).map (Color.map exact) := by
  refine ⟨?_, run_checked hpalette hsteps⟩
  intro c hc
  have hgamut := inGamut_run hpalette hsteps c hc
  exact ⟨hgamut, hgamut.inRange.hasHsl⟩

/-- A run from orange: a colour of more than one turn, less saturation than none, a mixture with
no share of the first colour where the opacities differ, a tint of it, and a spin. -/
theorem run_inGamut_orange :
    let orange : Color Rat := ⟨200, 120, 40, 1 / 2⟩
    let steps : List (PaletteStep Rat) :=
      [.construct .hsl 400 1 (1 / 2) 1, .adjust .saturate 0 ⟨-500, "%"⟩, .mix 1 2 (some ⟨0, ""⟩),
        .adjust .tint 3 ⟨100, "%"⟩, .greyscale 4, .adjust .spin 1 ⟨-1000, "deg"⟩]
    (∀ c ∈ [orange], c.InGamut) ∧ (∀ s ∈ steps, s.Admissible) ∧
      (run [orange] steps).length = 7 ∧ (∀ c ∈ run [orange] steps, c.InGamut ∧ c.HasHsl) ∧
      run ([orange].map (Color.map exact)) (steps.map (PaletteStep.map exact)) =
        (run [orange] steps).map (Color.map exact) := by
  intro orange steps
  have horange : ∀ c ∈ [orange], c.InGamut := by
    refine List.forall_mem_singleton.2 ⟨?_, ?_⟩
    · simp only [orange, Color.InRange]
      norm_num
    · simp only [orange, InUnit]
      norm_num
  have hsteps : ∀ s ∈ steps, s.Admissible := by
    simp only [steps, List.forall_mem_cons, PaletteStep.Admissible, Construction.InBounds,
      Adjustment.Allows, InUnit]
    norm_num
    decide
  exact ⟨horange, hsteps, rfl, run_inGamut horange hsteps⟩

end Palette

end StyleFunctions
