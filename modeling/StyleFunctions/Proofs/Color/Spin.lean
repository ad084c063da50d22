import Mathlib.Tactic
import StyleFunctions.Proofs.Color.Edits

/-!
# Spins

A spin turns the hue of a colour.  Turns are angles: they add up, and whole ones do nothing.

* `Adjustment.firstTurn_firstTurn_add` and `Adjustment.firstTurn_add_turns` — so it is with the
  angles themselves, which are brought into the first turn after each sum.
* `Color.toHsl_spin` — a colour in range that is not grey keeps all components but the hue, and
  the hue is read back off its channels.
* `Color.spin_group_action` — spins of colours in range add up, greys included.
-/

namespace StyleFunctions

/-! ## Angles -/

namespace Adjustment

/-- Whole turns lead to the same angle of the first turn. -/
theorem firstTurn_add_turns (v : Rat) (k : Int) : firstTurn (v + 360 * k) = firstTurn v := by
  have hturns : (v + 360 * k) / 360 = v / 360 + k := by ring
  rw [firstTurn, firstTurn, hturns, Int.floor_add_intCast]
  push_cast
  ring

theorem firstTurn_eq_self {v : Rat} (h : 0 ≤ v ∧ v < 360) : firstTurn v = v := by
  have hfloor : ⌊v / 360⌋ = 0 := by
    rw [Int.floor_eq_iff]
    constructor
    · push_cast
      linarith
    · push_cast
      linarith
  rw [firstTurn, hfloor]
  norm_num

/-- A sum of angles can be brought into the first turn on the way. -/
theorem firstTurn_firstTurn_add (v w : Rat) :
    firstTurn (firstTurn v + w) = firstTurn (v + w) := by
  have hback : firstTurn v + w = v + w + 360 * ((-⌊v / 360⌋ : Int) : Rat) := by
    rw [firstTurn]
    push_cast
    ring
  rw [hback, firstTurn_add_turns]

end Adjustment

/-! ## Spins of colours -/

namespace Color

open Adjustment

variable {c : Color Rat}

theorem spin_eq (c : Color Rat) (amount : Dimension Rat) :
    c.spin amount =
      Hsl.toColor { c.toHsl with hue := firstTurn (c.toHsl.hue + amount.value) } := by
  rw [← turnHue_eq]
  rfl

/-- A grey has no hue to turn. -/
theorem spin_of_grey (h : c.highest = c.lowest) (amount : Dimension Rat) : c.spin amount = c := by
  calc c.spin amount
      = Hsl.toColor ⟨firstTurn (0 + amount.value), 0, c.highest / 255, c.alpha⟩ := by
        rw [spin_eq, toHsl_of_grey h]
    _ = Hsl.toColor ⟨0, 0, c.highest / 255, c.alpha⟩ := by
        rw [Hsl.toColor_of_saturation_zero, Hsl.toColor_of_saturation_zero]
    _ = c.toHsl.toColor := by rw [toHsl_of_grey h]
    _ = c := toColor_toHsl_of_grey h

theorem highest_eq_lowest (h₁ : c.red = c.green) (h₂ : c.green = c.blue) :
    c.highest = c.lowest := by
  rw [highest, lowest, h₁, h₂]
  simp

/-- The components of a colour that has been turned. -/
theorem toHsl_spin (h : c.InRange) (hne : c.highest ≠ c.lowest) (amount : Dimension Rat) :
    (c.spin amount).toHsl =
      { c.toHsl with hue := firstTurn (c.toHsl.hue + amount.value) } := by
  have hchromatic : (Adjustment.spin.edit .hue amount c.toHsl).IsChromatic :=
    h.isChromatic_toHsl hne
  calc (c.spin amount).toHsl = Adjustment.spin.edit .hue amount c.toHsl :=
        Adjustment.toHsl_apply (f := .spin) rfl hchromatic
    _ = { c.toHsl with hue := firstTurn (c.toHsl.hue + amount.value) } := by
        rw [edit_exact]
        rfl

/-- Turns one after another add up. -/
theorem spin_spin (h : c.InRange) (a b : Dimension Rat) (unit : String) :
    (c.spin a).spin b = c.spin ⟨a.value + b.value, unit⟩ := by
  rcases eq_or_ne c.highest c.lowest with hgrey | hne
  · rw [spin_of_grey hgrey, spin_of_grey hgrey, spin_of_grey hgrey]
  · have hsum : firstTurn (firstTurn (c.toHsl.hue + a.value) + b.value) =
        firstTurn (c.toHsl.hue + (a.value + b.value)) := by
      rw [firstTurn_firstTurn_add, add_assoc]
    rw [spin_eq (c.spin a), toHsl_spin h hne, hsum, spin_eq c]

/-- Whole turns, forwards or backwards, lead back to the colour. -/
theorem spin_turns (h : c.InRange) (k : Int) (unit : String) : c.spin ⟨360 * k, unit⟩ = c := by
  rw [spin_eq, firstTurn_add_turns, firstTurn_eq_self c.toHsl_hue_mem]
  exact h.hasHsl.toColor_eq

/-- The spins of a colour in range: turns one after another add up, whole turns do nothing, the
colour is made from a hue of the first turn each time, and a grey stays as it is.  The units of
the amounts do not count. -/
theorem spin_group_action (h : c.InRange) :
    (∀ (a b : Dimension Rat) (unit : String),
      (c.spin a).spin b = c.spin ⟨a.value + b.value, unit⟩) ∧
    (∀ (k : Int) (unit : String), c.spin ⟨360 * k, unit⟩ = c) ∧
    (∀ amount : Dimension Rat,
      c.spin amount = Hsl.toColor { c.toHsl with hue := turnHue c.toHsl.hue amount.value } ∧
        0 ≤ turnHue c.toHsl.hue amount.value ∧ turnHue c.toHsl.hue amount.value < 360) ∧
    (c.red = c.green → c.green = c.blue → ∀ amount : Dimension Rat, c.spin amount = c) := by
  refine ⟨spin_spin h, spin_turns h, ?_, ?_⟩
  · intro amount
    refine ⟨rfl, ?_⟩
    rw [turnHue_eq]
    exact firstTurn_mem _
  · intro hred hgreen
    exact spin_of_grey (highest_eq_lowest hred hgreen)

/-- Orange, turned forwards by more than a turn and then back past red, and a grey. -/
theorem spin_group_action_orange :
    let orange : Color Rat := ⟨200, 120, 40, 1 / 2⟩
    let grey : Color Rat := ⟨90, 90, 90, 1⟩
    orange.InRange ∧ orange.toHsl.hue = 30 ∧
      (orange.spin ⟨400, "deg"⟩).spin ⟨-1200, ""⟩ = orange.spin ⟨400 + -1200, "%"⟩ ∧
      orange.spin ⟨360 * (-2 : Int), "deg"⟩ = orange ∧
      (0 ≤ turnHue orange.toHsl.hue (-1200) ∧ turnHue orange.toHsl.hue (-1200) < 360) ∧
      grey.InRange ∧ grey.red = grey.green ∧ grey.green = grey.blue ∧
      grey.spin ⟨-1200, "deg"⟩ = grey := by
  intro orange grey
  have horange : orange.InRange := by
    simp only [orange, InRange]
    norm_num
  have hgrey : grey.InRange := by
    simp only [grey, InRange]
    norm_num
  obtain ⟨hsum, hwhole, hhue, -⟩ := spin_group_action horange
  obtain ⟨-, -, -, hfixed⟩ := spin_group_action hgrey
  exact ⟨horange, by decide +kernel, hsum ⟨400, "deg"⟩ ⟨-1200, ""⟩ "%", hwhole (-2) "deg",
    (hhue ⟨-1200, "deg"⟩).2, hgrey, rfl, rfl, hfixed rfl rfl ⟨-1200, "deg"⟩⟩

end Color

end StyleFunctions
