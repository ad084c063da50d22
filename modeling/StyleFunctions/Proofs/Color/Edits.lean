import Mathlib.Tactic
import StyleFunctions.Proofs.Color.Gamut

/-!
# Adjustments edit one component

An adjustment computes in hue, saturation and lightness but leaves a colour of channels behind.
As long as the edited colour is not grey, nothing is lost on the way: the components of the new
colour are the edited ones.

* `Adjustment.toHsl_apply` — the components of an adjusted colour.
* `Adjustment.apply_comm` — adjustments of different components can be exchanged.
* `Adjustment.apply_edits_one_component` — both, in terms of exact edits.
-/

namespace StyleFunctions

/-- A colour by its components that is no grey, with black and white among the greys. -/
def Hsl.IsChromatic (x : Hsl Rat) : Prop :=
  0 < x.saturation ∧ 0 < x.lightness ∧ x.lightness < 1

/-- Levels that differ have a saturation above zero. -/
theorem Color.hslSaturation_pos {low high : Rat} (h₀ : 0 ≤ low) (h : low < high) (h₁ : high ≤ 1) :
    0 < Color.hslSaturation high low ((high + low) / 2) := by
  rw [Color.hslSaturation_exact]
  split
  · exact div_pos (by linarith) (by linarith)
  · exact div_pos (by linarith) (by linarith)

/-- A colour in range whose channels are not all equal is no grey. -/
theorem Color.InRange.isChromatic_toHsl {c : Color Rat} (h : c.InRange)
    (hne : c.highest ≠ c.lowest) : c.toHsl.IsChromatic := by
  obtain ⟨hlow, hhigh⟩ := c.inRange_iff.1 h
  have hlt : c.lowest / 255 < c.highest / 255 :=
    div_lt_div_of_pos_right (lt_of_le_of_ne c.lowest_le_highest hne.symm) (by norm_num)
  have hlow' : 0 ≤ c.lowest / 255 := by linarith
  have hhigh' : c.highest / 255 ≤ 1 := by linarith
  obtain ⟨p, hp⟩ := Color.exists_place_toHsl hne
  rw [hp, Hsl.IsChromatic]
  exact ⟨Color.hslSaturation_pos hlow' hlt hhigh', by linarith, by linarith⟩

/-- Components with a hue of the first turn are read back off their colour. -/
theorem Hsl.IsChromatic.toHsl_toColor_eq {x : Hsl Rat} (h : x.IsChromatic) (h₀ : 0 ≤ x.hue)
    (h₁ : x.hue < 360) : x.toColor.toHsl = x := by
  obtain ⟨hue, saturation, lightness, alpha⟩ := x
  obtain ⟨hs, hl₀, hl₁⟩ := h
  obtain ⟨p, rfl⟩ := HuePlace.exists_degrees h₀ h₁
  exact Hsl.toHsl_toColor_degrees p alpha hs hl₀ hl₁

namespace Adjustment

variable {f g : Adjustment} {j k : HslComponent}

theorem edit_exact (f : Adjustment) (k : HslComponent) (amount : Dimension Rat) (x : Hsl Rat) :
    f.edit k amount x = x.set k (f.newValue amount (x.get k)) := by
  rw [edit, edited_exact]

/-- Edited components have a hue of the first turn, if they had one before. -/
theorem hue_edit_mem (hk : f.component? = some k) (amount : Dimension Rat) {x : Hsl Rat}
    (h : 0 ≤ x.hue ∧ x.hue < 360) :
    0 ≤ (f.edit k amount x).hue ∧ (f.edit k amount x).hue < 360 := by
  cases k with
  | hue =>
    -- Nothing but a spin edits the hue.
    have hspin : f = spin := by
      cases f <;> first | rfl | cases hk
    subst hspin
    rw [edit_exact]
    exact firstTurn_mem _
  | saturation | lightness | alpha => exact h

/-- The components of an adjusted colour are the edited ones. -/
theorem toHsl_apply (hk : f.component? = some k) {c : Color Rat} {amount : Dimension Rat}
    (h : (f.edit k amount c.toHsl).IsChromatic) :
    (f.apply c amount).toHsl = f.edit k amount c.toHsl := by
  obtain ⟨h₀, h₁⟩ := hue_edit_mem hk amount c.toHsl_hue_mem
  rw [apply_eq_adjust hk, Color.adjust, h.toHsl_toColor_eq h₀ h₁]

/-- Edits of different components can be exchanged. -/
theorem edit_comm (hne : j ≠ k) (a b : Dimension Rat) (x : Hsl Rat) :
    g.edit k b (f.edit j a x) = f.edit j a (g.edit k b x) := by
  rw [edit, edit, edit, edit, Hsl.get_set_of_ne hne, Hsl.get_set_of_ne hne.symm,
    Hsl.set_comm hne]

/-- Adjustments of different components can be exchanged where no grey comes between them. -/
theorem apply_comm (hf : f.component? = some j) (hg : g.component? = some k) (hne : j ≠ k)
    {c : Color Rat} {a b : Dimension Rat} (ha : (f.edit j a c.toHsl).IsChromatic)
    (hb : (g.edit k b c.toHsl).IsChromatic) :
    g.apply (f.apply c a) b = f.apply (g.apply c b) a := by
  calc g.apply (f.apply c a) b
      = (g.edit k b (f.apply c a).toHsl).toColor := by rw [apply_eq_adjust hg, Color.adjust]
    _ = (g.edit k b (f.edit j a c.toHsl)).toColor := by rw [toHsl_apply hf ha]
    _ = (f.edit j a (g.edit k b c.toHsl)).toColor := by rw [edit_comm hne]
    _ = (f.edit j a (g.apply c b).toHsl).toColor := by rw [toHsl_apply hg hb]
    _ = f.apply (g.apply c b) a := by rw [apply_eq_adjust hf, Color.adjust]

/-- Of any colour, whatever the amount: where the edit of an adjustment does not lead to a grey,
the components of the adjusted colour are the edited ones, with all others as they were; and two
adjustments of different components come to the same in either order, where neither alone leads
to a grey. -/
theorem apply_edits_one_component (c : Color Rat) :
    (∀ (f : Adjustment) (k : HslComponent) (amount : Dimension Rat), f.component? = some k →
      (c.toHsl.set k (f.newValue amount (c.toHsl.get k))).IsChromatic →
      (f.apply c amount).toHsl = c.toHsl.set k (f.newValue amount (c.toHsl.get k)) ∧
        ∀ j, j ≠ k → (f.apply c amount).toHsl.get j = c.toHsl.get j) ∧
    ∀ (f g : Adjustment) (j k : HslComponent) (a b : Dimension Rat), f.component? = some j →
      g.component? = some k → j ≠ k →
      (c.toHsl.set j (f.newValue a (c.toHsl.get j))).IsChromatic →
      (c.toHsl.set k (g.newValue b (c.toHsl.get k))).IsChromatic →
      g.apply (f.apply c a) b = f.apply (g.apply c b) a := by
  constructor
  · intro f k amount hk h
    rw [← edit_exact] at h ⊢
    have hcomponents := toHsl_apply hk h
    refine ⟨hcomponents, ?_⟩
    intro j hj
    rw [hcomponents, edit, Hsl.get_set_of_ne hj]
  · intro f g j k a b hf hg hne ha hb
    rw [← edit_exact] at ha hb
    exact apply_comm hf hg hne ha hb

/-- Orange with more saturation than there can be, turned back by more than a turn, and with an
opacity that is given as a plain number. -/
theorem apply_edits_one_component_orange :
    let orange : Color Rat := ⟨200, 120, 40, 1 / 2⟩
    let most : Dimension Rat := ⟨250, "%"⟩
    let back : Dimension Rat := ⟨-400, "deg"⟩
    (orange.toHsl.set .saturation (saturate.newValue most (orange.toHsl.get .saturation))) =
        ⟨30, 1, 8 / 17, 1 / 2⟩ ∧
      (saturate.apply orange most).toHsl = ⟨30, 1, 8 / 17, 1 / 2⟩ ∧
      spin.apply (saturate.apply orange most) back =
        saturate.apply (spin.apply orange back) most ∧
      (fadeIn.apply orange ⟨1 / 4, ""⟩).toHsl = ⟨30, 2 / 3, 8 / 17, 3 / 4⟩ := by
  intro orange most back
  have hmost : orange.toHsl.set .saturation
      (saturate.newValue most (orange.toHsl.get .saturation)) = ⟨30, 1, 8 / 17, 1 / 2⟩ := by
    decide +kernel
  have hback : orange.toHsl.set .hue (spin.newValue back (orange.toHsl.get .hue)) =
      ⟨350, 2 / 3, 8 / 17, 1 / 2⟩ := by
    decide +kernel
  have hmost' : (orange.toHsl.set .saturation
      (saturate.newValue most (orange.toHsl.get .saturation))).IsChromatic := by
    rw [hmost, Hsl.IsChromatic]
    norm_num
  have hback' : (orange.toHsl.set .hue
      (spin.newValue back (orange.toHsl.get .hue))).IsChromatic := by
    rw [hback, Hsl.IsChromatic]
    norm_num
  have hplain : orange.toHsl.set .alpha (fadeIn.newValue ⟨1 / 4, ""⟩ (orange.toHsl.get .alpha)) =
      ⟨30, 2 / 3, 8 / 17, 3 / 4⟩ := by
    decide +kernel
  have hplain' : (orange.toHsl.set .alpha
      (fadeIn.newValue ⟨1 / 4, ""⟩ (orange.toHsl.get .alpha))).IsChromatic := by
    rw [hplain, Hsl.IsChromatic]
    norm_num
  refine ⟨hmost, ?_, ?_, ?_⟩
  · rw [← hmost]
    exact ((apply_edits_one_component orange).1 saturate .saturation most rfl hmost').1
  · exact (apply_edits_one_component orange).2 saturate spin .saturation .hue most back rfl rfl
      (by decide) hmost' hback'
  · rw [← hplain]
    exact ((apply_edits_one_component orange).1 fadeIn .alpha ⟨1 / 4, ""⟩ rfl hplain').1

end Adjustment

end StyleFunctions
