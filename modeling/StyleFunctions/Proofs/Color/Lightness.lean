import Mathlib.Tactic
import StyleFunctions.Function.Projection
import StyleFunctions.Proofs.Color.Accumulation
import StyleFunctions.Proofs.Number.Rounding

/-!
# More lightness, more of every channel

Lightness enters the channels of a colour through the two levels between which they lie, and each
level by one formula up to a half and another one above.  No channel ever falls while the lightness
rises.

* `Hsl.highLevel_eq_min` and `Hsl.lowLevel_eq_max` — of its two formulas, the highest level is
  always the smaller one and the lowest level the larger one; so both rise with the lightness, also
  where the formulas change.
* `HuePlace.color_mono` — at a place on the hue circle every channel is an average of the levels.
* `Color.adjust_lightness_mono` — so steps of the lightness raise or lower all channels together.
* `Contrast.exists_map_ite_eq` — levels that never fall pass a threshold once at most.
* `Color.lighten_mono` — what all of this means for lightened and darkened colours, their luma and
  the contrast to them.
-/

namespace StyleFunctions

/-! ## Channel by channel -/

namespace Color

/-- No channel of the first colour is above the one of the second. -/
structure ChannelsLe (c d : Color Rat) : Prop where
  red : c.red ≤ d.red
  green : c.green ≤ d.green
  blue : c.blue ≤ d.blue

end Color

/-! ## Levels -/

namespace Hsl

variable {s l l' : Rat}

/-- The formula for light colours takes over where it becomes the smaller one. -/
theorem highLevel_eq_min (hs : 0 ≤ s) (l : Rat) :
    highLevel s l = min (l * (1 + s)) (l * (1 - s) + s) := by
  have hgap : l * (1 - s) + s - l * (1 + s) = s * (1 - 2 * l) := by ring
  rw [highLevel_exact]
  split
  · rename_i hl
    have hnonneg : 0 ≤ s * (1 - 2 * l) := mul_nonneg hs (by linarith)
    rw [min_eq_left (by linarith)]
    ring
  · rename_i hl
    have hnonpos : s * (1 - 2 * l) ≤ 0 := mul_nonpos_of_nonneg_of_nonpos hs (by linarith)
    rw [min_eq_right (by linarith)]
    ring

theorem lowLevel_eq_max (hs : 0 ≤ s) (l : Rat) :
    lowLevel s l = max (l * (1 - s)) (l * (1 + s) - s) := by
  have hleft : l * 2 - l * (1 + s) = l * (1 - s) := by ring
  have hright : l * 2 - (l * (1 - s) + s) = l * (1 + s) - s := by ring
  rw [lowLevel, highLevel_eq_min hs, ← max_sub_sub_left, hleft, hright]

theorem highLevel_mono (hs : InUnit s) (h : l ≤ l') : highLevel s l ≤ highLevel s l' := by
  have hdark : l * (1 + s) ≤ l' * (1 + s) := mul_le_mul_of_nonneg_right h (by linarith [hs.1])
  have hlight : l * (1 - s) ≤ l' * (1 - s) := mul_le_mul_of_nonneg_right h (sub_nonneg.2 hs.2)
  rw [highLevel_eq_min hs.1, highLevel_eq_min hs.1]
  exact min_le_min hdark (by linarith)

theorem lowLevel_mono (hs : InUnit s) (h : l ≤ l') : lowLevel s l ≤ lowLevel s l' := by
  have hdark : l * (1 - s) ≤ l' * (1 - s) := mul_le_mul_of_nonneg_right h (sub_nonneg.2 hs.2)
  have hlight : l * (1 + s) ≤ l' * (1 + s) := mul_le_mul_of_nonneg_right h (by linarith [hs.1])
  rw [lowLevel_eq_max hs.1, lowLevel_eq_max hs.1]
  exact max_le_max hdark (by linarith)

end Hsl

/-- At one place, higher levels leave no channel lower. -/
theorem HuePlace.color_mono (p : HuePlace) {low low' high high' : Rat} (hlow : low ≤ low')
    (hhigh : high ≤ high') (alpha : Rat) :
    (p.color low high alpha).ChannelsLe (p.color low' high' alpha) := by
  have hrest : 0 ≤ 1 - p.part := sub_nonneg.2 p.part_lt_one.le
  have hrising : low + (high - low) * p.part ≤ low' + (high' - low') * p.part := by
    have hfirst : low * (1 - p.part) ≤ low' * (1 - p.part) :=
      mul_le_mul_of_nonneg_right hlow hrest
    have hsecond : high * p.part ≤ high' * p.part :=
      mul_le_mul_of_nonneg_right hhigh p.part_nonneg
    linarith
  have hfalling : high - (high - low) * p.part ≤ high' - (high' - low') * p.part := by
    have hfirst : high * (1 - p.part) ≤ high' * (1 - p.part) :=
      mul_le_mul_of_nonneg_right hhigh hrest
    have hsecond : low * p.part ≤ low' * p.part := mul_le_mul_of_nonneg_right hlow p.part_nonneg
    linarith
  obtain ⟨sector, part, hsector, h₀, h₁⟩ := p
  simp only at hrising hfalling
  interval_cases sector <;>
    · simp only [HuePlace.color, Hsv.sectorLevels, Nat.cast_ofNat, Nat.cast_zero, Nat.cast_one]
      constructor <;> simp only <;> linarith

/-! ## Steps of the lightness -/

theorem Adjustment.clamp_mono : Monotone clamp := by
  intro v w h
  unfold clamp
  exact inf_le_inf_right 1 (sup_le_sup_right h 0)

namespace Color

open Adjustment

variable {c d : Color Rat}

/-- The colour after a step of the lightness is still at the place of the colour before it. -/
theorem exists_place_adjust_lightness (c : Color Rat) :
    ∃ place : HuePlace, ∀ p : Rat,
      c.adjust (Hsl.shift .lightness p) =
        place.color (Hsl.lowLevel c.toHsl.saturation (clamp (c.toHsl.lightness + p)))
          (Hsl.highLevel c.toHsl.saturation (clamp (c.toHsl.lightness + p))) c.alpha := by
  obtain ⟨h₀, h₁⟩ := c.toHsl_hue_mem
  obtain ⟨place, hplace⟩ := HuePlace.exists_degrees h₀ h₁
  refine ⟨place, ?_⟩
  intro p
  rw [adjust, Hsl.shift_lightness, ← hplace, toHsl_alpha, Hsl.toColor_degrees]

/-- A step that leads further up leaves no channel lower. -/
theorem adjust_lightness_mono (h : c.InRange) {p q : Rat} (hpq : p ≤ q) :
    (c.adjust (Hsl.shift .lightness p)).ChannelsLe (c.adjust (Hsl.shift .lightness q)) := by
  have hs : InUnit c.toHsl.saturation := h.inUnit_toHsl.1
  have hl : clamp (c.toHsl.lightness + p) ≤ clamp (c.toHsl.lightness + q) :=
    clamp_mono (by linarith)
  obtain ⟨place, hplace⟩ := exists_place_adjust_lightness c
  rw [hplace p, hplace q]
  exact place.color_mono (Hsl.lowLevel_mono hs hl) (Hsl.highLevel_mono hs hl) c.alpha

theorem lighten_eq (c : Color Rat) (amount : Dimension Rat) :
    c.lighten amount = c.adjust (Hsl.shift .lightness (amount.value * (1 / 100))) :=
  apply_eq_adjust_shift (f := .lighten) (by decide) rfl c amount.value amount.unit

theorem darken_eq (c : Color Rat) (amount : Dimension Rat) :
    c.darken amount = c.adjust (Hsl.shift .lightness (amount.value * -(1 / 100))) :=
  apply_eq_adjust_shift (f := .darken) (by decide) rfl c amount.value amount.unit

theorem alpha_lighten (c : Color Rat) (amount : Dimension Rat) :
    (c.lighten amount).alpha = c.alpha := by
  obtain ⟨place, hplace⟩ := exists_place_adjust_lightness c
  rw [lighten_eq, hplace]
  rfl

theorem alpha_darken (c : Color Rat) (amount : Dimension Rat) :
    (c.darken amount).alpha = c.alpha := by
  obtain ⟨place, hplace⟩ := exists_place_adjust_lightness c
  rw [darken_eq, hplace]
  rfl

/-! ## Luminance and luma -/

theorem luminance_exact (c : Color Rat) :
    c.luminance =
      2126 / 10000 * (c.red / 255) + 7152 / 10000 * (c.green / 255) +
        722 / 10000 * (c.blue / 255) := by
  change (0.2126 : Rat) * (c.red / 255) + 0.7152 * (c.green / 255) + 0.0722 * (c.blue / 255) = _
  norm_num

theorem ChannelsLe.luminance_le (h : c.ChannelsLe d) : c.luminance ≤ d.luminance := by
  obtain ⟨hred, hgreen, hblue⟩ := h
  rw [luminance_exact, luminance_exact]
  linarith

/-- The first colour is no brighter than the second, when seen with its opacity. -/
structure LumaLe (c d : Color Rat) : Prop where
  luminance : c.luminance * c.alpha ≤ d.luminance * d.alpha
  luma : ∃ p q, Projection.luma.apply c = .percentage p ∧
    Projection.luma.apply d = .percentage q ∧ p ≤ q

theorem ChannelsLe.lumaLe (h : c.ChannelsLe d) (halpha : c.alpha = d.alpha) (h₀ : 0 ≤ c.alpha) :
    c.LumaLe d := by
  have hle : c.luminance * c.alpha ≤ d.luminance * d.alpha := by
    rw [← halpha]
    exact mul_le_mul_of_nonneg_right h.luminance_le h₀
  refine ⟨hle, _, _, rfl, rfl, ?_⟩
  have hround : Rounding.halfAway (c.luminance * c.alpha * 100) ≤
      Rounding.halfAway (d.luminance * d.alpha * 100) := Rounding.halfAway_mono (by linarith)
  exact Int.cast_le.2 hround

end Color

/-! ## The contrast -/

namespace Contrast

/-- With the default threshold, a colour gets the light value below it and the dark one from it
on. -/
theorem pick_default (c : Color Rat) (dark light : Option (Value Rat)) :
    pick (.color c) dark light none =
      if c.luminance * c.alpha < defaultThreshold then
        .ok (some (light.getD (.color Color.white)))
      else .ok (some (dark.getD (.color Color.black))) := rfl

/-- Levels that never fall pass a bound once at most. -/
theorem exists_map_ite_eq {ι β : Type} (level : ι → Rat) (bound : Rat) (below above : β)
    {xs : List ι} (h : xs.Pairwise fun x y => level x ≤ level y) :
    ∃ m n, xs.map (fun x => if level x < bound then below else above) =
      List.replicate m below ++ List.replicate n above := by
  induction xs with
  | nil => exact ⟨0, 0, rfl⟩
  | cons x rest ih =>
    obtain ⟨hx, hrest⟩ := List.pairwise_cons.1 h
    by_cases hlow : level x < bound
    · obtain ⟨m, n, hmap⟩ := ih hrest
      refine ⟨m + 1, n, ?_⟩
      rw [List.map_cons, if_pos hlow, hmap, List.replicate_succ, List.cons_append]
    · -- from here on, every level is at the bound or above it
      have hhigh : ∀ y ∈ x :: rest, ¬ level y < bound := by
        intro y hy
        rcases List.mem_cons.1 hy with rfl | hy
        · exact hlow
        · linarith [hx y hy]
      refine ⟨0, (x :: rest).length, ?_⟩
      rw [List.replicate_zero, List.nil_append, ← List.map_const']
      exact List.map_congr_left fun y hy => if_neg (hhigh y hy)

end Contrast

/-! ## More and less lightness -/

namespace Color

/-- A colour in range that is lightened by more has no channel lower, and one that is darkened by
more no channel higher, whatever the units of the amounts.  If its opacity is not negative, its
luminance, weighted by the opacity, and its luma rise and fall along; and the contrast to the colour
lightened by rising amounts is the light value up to some amount and the dark value from there
on. -/
theorem lighten_mono {c : Color Rat} (h : c.InRange) :
    (∀ x y : Dimension Rat, x.value ≤ y.value →
      (c.lighten x).ChannelsLe (c.lighten y) ∧ (c.darken y).ChannelsLe (c.darken x)) ∧
    (0 ≤ c.alpha →
      (∀ x y : Dimension Rat, x.value ≤ y.value →
        (c.lighten x).LumaLe (c.lighten y) ∧ (c.darken y).LumaLe (c.darken x)) ∧
      ∀ (dark light : Option (Value Rat)) (amounts : List (Dimension Rat)),
        amounts.Pairwise (fun x y => x.value ≤ y.value) →
        ∃ m n, amounts.map (fun x => Contrast.pick (.color (c.lighten x)) dark light none) =
          List.replicate m (.ok (some (light.getD (.color white)))) ++
            List.replicate n (.ok (some (dark.getD (.color black))))) := by
  have hlighten {x y : Dimension Rat} (hxy : x.value ≤ y.value) :
      (c.lighten x).ChannelsLe (c.lighten y) := by
    rw [lighten_eq, lighten_eq]
    exact adjust_lightness_mono h (by linarith)
  have hdarken {x y : Dimension Rat} (hxy : x.value ≤ y.value) :
      (c.darken y).ChannelsLe (c.darken x) := by
    rw [darken_eq, darken_eq]
    exact adjust_lightness_mono h (by linarith)
  refine ⟨fun x y hxy => ⟨hlighten hxy, hdarken hxy⟩, ?_⟩
  intro halpha
  have hluma {x y : Dimension Rat} (hxy : x.value ≤ y.value) :
      (c.lighten x).LumaLe (c.lighten y) :=
    (hlighten hxy).lumaLe (by rw [alpha_lighten, alpha_lighten]) (by rwa [alpha_lighten])
  have hluma' {x y : Dimension Rat} (hxy : x.value ≤ y.value) :
      (c.darken y).LumaLe (c.darken x) :=
    (hdarken hxy).lumaLe (by rw [alpha_darken, alpha_darken]) (by rwa [alpha_darken])
  refine ⟨fun x y hxy => ⟨hluma hxy, hluma' hxy⟩, ?_⟩
  intro dark light amounts hamounts
  simp only [Contrast.pick_default]
  exact Contrast.exists_map_ite_eq (fun x => (c.lighten x).luminance * (c.lighten x).alpha) _ _ _
    (hamounts.imp fun hxy => (hluma hxy).luminance)

/-- Half-transparent orange, through black at one end and white at the other, where the contrast
changes from white to black. -/
theorem lighten_mono_orange :
    let orange : Color Rat := ⟨200, 120, 40, 1 / 2⟩
    let amounts : List (Dimension Rat) := [⟨-60, "%"⟩, ⟨0, "px"⟩, ⟨25, ""⟩, ⟨50, "%"⟩, ⟨90, "%"⟩]
    orange.InRange ∧ 0 ≤ orange.alpha ∧ amounts.Pairwise (fun x y => x.value ≤ y.value) ∧
      (orange.lighten ⟨25, ""⟩).ChannelsLe (orange.lighten ⟨50, "%"⟩) ∧
      (orange.darken ⟨50, "%"⟩).LumaLe (orange.darken ⟨25, ""⟩) ∧
      ∃ m n, amounts.map
          (fun x => Contrast.pick (.color (orange.lighten x)) none none none) =
        List.replicate m (.ok (some (.color white))) ++
          List.replicate n (.ok (some (.color black))) := by
  intro orange amounts
  have horange : orange.InRange := by
    simp only [orange, InRange]
    norm_num
  have halpha : 0 ≤ orange.alpha := by norm_num [orange]
  have hamounts : amounts.Pairwise (fun x y => x.value ≤ y.value) := by decide +kernel
  obtain ⟨hchannels, hrest⟩ := lighten_mono horange
  obtain ⟨hluma, hcontrast⟩ := hrest halpha
  refine ⟨horange, halpha, hamounts, ?_, ?_, hcontrast none none amounts hamounts⟩
  · exact (hchannels ⟨25, ""⟩ ⟨50, "%"⟩ (by norm_num)).1
  · exact (hluma ⟨25, ""⟩ ⟨50, "%"⟩ (by norm_num)).2

end Color

end StyleFunctions
