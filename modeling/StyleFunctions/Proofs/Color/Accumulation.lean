import Mathlib.Tactic
import StyleFunctions.Proofs.Color.Edits

/-!
# Adjustments that add up

Six adjustments move a component of a colour by a step and clamp it to the unit interval.  Steps
of one adjustment add up, although a colour that becomes grey, black or white on the way forgets
its hue or its saturation.

* `Adjustment.clamp_clamp_add` — clamped steps in one direction add up.
* `Hsl.IsFlat` — the components of greys, black and white among them: all that is left of them in
  the colour is their lightness and opacity.
* `Hsl.toColor_shift_toHsl` — whatever a step makes a colour forget does not matter for another
  step in the same direction.
* `Adjustment.apply_amounts_add_up` — so two steps, or any number of them, come to one step by the
  sum of the amounts; and the grey of a colour lies halfway between its channels.
-/

namespace StyleFunctions

/-! ## Clamped steps -/

namespace Adjustment

variable {v p q : Rat}

theorem inUnit_clamp (v : Rat) : InUnit (clamp v) := by
  rw [clamp, ← Scalar.clampUnit_exact]
  exact inUnit_clampUnit v

theorem clamp_eq_self (h : InUnit v) : clamp v = v := by
  rw [clamp, sup_eq_left.2 h.1, inf_eq_left.2 h.2]

theorem clamp_eq_zero_iff : clamp v = 0 ↔ v ≤ 0 := by
  rw [clamp]
  grind

theorem clamp_eq_one_iff : clamp v = 1 ↔ 1 ≤ v := by
  rw [clamp]
  grind

/-- Two steps of which neither goes up while the other goes down. -/
def SameDirection (p q : Rat) : Prop := 0 ≤ p ∧ 0 ≤ q ∨ p ≤ 0 ∧ q ≤ 0

/-- After a step down to zero, another step in the same direction stays there. -/
theorem SameDirection.clamp_zero (h : SameDirection p q) (hv : 0 < v)
    (hzero : clamp (v + p) = 0) : clamp (0 + q) = 0 := by
  rw [clamp_eq_zero_iff] at hzero ⊢
  rcases h with ⟨hp, -⟩ | ⟨-, hq⟩
  · linarith
  · linarith

/-- After a step up to one, another step in the same direction stays there. -/
theorem SameDirection.clamp_one (h : SameDirection p q) (hv : v < 1) (hone : clamp (v + p) = 1) :
    clamp (1 + q) = 1 := by
  rw [clamp_eq_one_iff] at hone ⊢
  rcases h with ⟨-, hq⟩ | ⟨hp, -⟩
  · linarith
  · linarith

/-- Clamped steps in one direction add up. -/
theorem clamp_clamp_add (hv : InUnit v) (h : SameDirection p q) :
    clamp (clamp (v + p) + q) = clamp (v + (p + q)) := by
  rw [← add_assoc]
  by_cases hin : InUnit (v + p)
  · rw [clamp_eq_self hin]
  · -- the first step leaves the interval, and the second one leads on in its direction
    rcases h with ⟨hp, hq⟩ | ⟨hp, hq⟩
    · have hone : 1 ≤ v + p := by
        by_contra hcon
        exact hin ⟨add_nonneg hv.1 hp, (not_le.1 hcon).le⟩
      rw [clamp_eq_one_iff.2 hone, clamp_eq_one_iff.2 (by linarith),
        clamp_eq_one_iff.2 (by linarith)]
    · have hzero : v + p ≤ 0 := by
        by_contra hcon
        exact hin ⟨(not_le.1 hcon).le, by linarith [hv.2]⟩
      rw [clamp_eq_zero_iff.2 hzero, clamp_eq_zero_iff.2 (by linarith),
        clamp_eq_zero_iff.2 (by linarith)]

end Adjustment

/-! ## Flat components -/

namespace Hsl

open Adjustment

variable {x y : Hsl Rat} {k : HslComponent} {p q : Rat}

/-- The components of a grey, black or white: no saturation, or a lightness at either end. -/
def IsFlat (x : Hsl Rat) : Prop := x.saturation = 0 ∨ x.lightness = 0 ∨ x.lightness = 1

/-- Flat components leave their lightness in every channel. -/
theorem IsFlat.toColor_eq (h : x.IsFlat) :
    x.toColor = ⟨x.lightness * 255, x.lightness * 255, x.lightness * 255, x.alpha⟩ := by
  have hlevels : lowLevel x.saturation x.lightness = highLevel x.saturation x.lightness :=
    (lowLevel_eq_highLevel_iff _ _).2 h
  have hsum := lowLevel_add_highLevel x.saturation x.lightness
  have hhigh : highLevel x.saturation x.lightness = x.lightness := by linarith
  rw [toColor_exact, hlevels, hhigh, colorAt]
  simp only [channelLevel_same]

theorem IsFlat.toHsl_toColor_eq (h : x.IsFlat) :
    x.toColor.toHsl = ⟨0, 0, x.lightness, x.alpha⟩ := by
  rw [h.toColor_eq, Color.toHsl_of_grey (by simp [Color.highest, Color.lowest])]
  simp [Color.highest]

theorem toColor_eq_of_isFlat (hx : x.IsFlat) (hy : y.IsFlat) (hl : x.lightness = y.lightness)
    (ha : x.alpha = y.alpha) : x.toColor = y.toColor := by
  rw [hx.toColor_eq, hy.toColor_eq, hl, ha]

theorem InBounds.isFlat_or_isChromatic (h : x.InBounds) : x.IsFlat ∨ x.IsChromatic := by
  rw [IsFlat, IsChromatic]
  have hs := h.saturation.1
  obtain ⟨hl₀, hl₁⟩ := h.lightness
  rcases hs.eq_or_lt with hs | hs
  · exact Or.inl (Or.inl hs.symm)
  · rcases hl₀.eq_or_lt with hl₀ | hl₀
    · exact Or.inl (Or.inr (Or.inl hl₀.symm))
    · rcases hl₁.eq_or_lt with hl₁ | hl₁
      · exact Or.inl (Or.inr (Or.inr hl₁))
      · exact Or.inr ⟨hs, hl₀, hl₁⟩

/-! ## Steps of a component -/

theorem get_set (k : HslComponent) (v : Rat) (x : Hsl Rat) : get k (set k v x) = v := by
  cases k <;> rfl

theorem set_get (k : HslComponent) (x : Hsl Rat) : set k (get k x) x = x := by
  cases k <;> rfl

theorem set_set (k : HslComponent) (v w : Rat) (x : Hsl Rat) :
    set k w (set k v x) = set k w x := by
  cases k <;> rfl

/-- A component moved by a step and clamped to the unit interval. -/
def shift (k : HslComponent) (p : Rat) (x : Hsl Rat) : Hsl Rat := x.set k (clamp (x.get k + p))

theorem shift_saturation (p : Rat) (x : Hsl Rat) :
    shift .saturation p x = { x with saturation := clamp (x.saturation + p) } := rfl

theorem shift_lightness (p : Rat) (x : Hsl Rat) :
    shift .lightness p x = { x with lightness := clamp (x.lightness + p) } := rfl

theorem shift_alpha (p : Rat) (x : Hsl Rat) :
    shift .alpha p x = { x with alpha := clamp (x.alpha + p) } := rfl

theorem shift_shift (hx : InUnit (x.get k)) (h : SameDirection p q) :
    shift k q (shift k p x) = shift k (p + q) x := by
  rw [shift, shift, shift, get_set, set_set, clamp_clamp_add hx h]

/-- Of all components but the hue, those of a colour in gamut lie in the unit interval. -/
theorem InBounds.inUnit_get (h : x.InBounds) (hk : k ≠ .hue) : InUnit (x.get k) := by
  cases k with
  | hue => exact absurd rfl hk
  | saturation => exact h.saturation
  | lightness => exact h.lightness
  | alpha => exact h.alpha

theorem InBounds.shift (h : x.InBounds) (hk : k ≠ .hue) (p : Rat) : (shift k p x).InBounds := by
  refine h.set ?_
  cases k with
  | hue => exact absurd rfl hk
  | saturation | lightness | alpha => exact inUnit_clamp _

/-- Components of a colour in range: those of a grey, with neither hue nor saturation, or chromatic
ones. -/
def IsSettled (x : Hsl Rat) : Prop := x.hue = 0 ∧ x.saturation = 0 ∨ x.IsChromatic

theorem isSettled_toHsl {c : Color Rat} (h : c.InRange) : c.toHsl.IsSettled := by
  rcases eq_or_ne c.highest c.lowest with hgrey | hne
  · rw [Color.toHsl_of_grey hgrey]
    exact Or.inl ⟨rfl, rfl⟩
  · exact Or.inr (h.isChromatic_toHsl hne)

/-- Where a step of the lightness leads to black or white, so do further ones. -/
theorem isFlat_shift_lightness (hx : x.IsSettled) (h : SameDirection p q)
    (hflat : (shift .lightness p x).IsFlat) :
    (shift .lightness q (shift .lightness p x)).IsFlat := by
  simp only [shift_lightness, IsFlat] at hflat ⊢
  rcases hx with ⟨-, hs⟩ | ⟨-, hl₀, hl₁⟩
  · exact Or.inl hs
  · rcases hflat with hs | hzero | hone
    · exact Or.inl hs
    · rw [hzero]
      exact Or.inr (Or.inl (h.clamp_zero hl₀ hzero))
    · rw [hone]
      exact Or.inr (Or.inr (h.clamp_one hl₁ hone))

/-- Where a step of the saturation leads to a grey, the hue is either not there in the first place
or no longer seen. -/
theorem toColor_shift_saturation (hx : x.IsSettled) (h : SameDirection p q)
    (hflat : (shift .saturation p x).IsFlat) :
    (shift .saturation q
        ⟨0, 0, (shift .saturation p x).lightness, (shift .saturation p x).alpha⟩).toColor =
      (shift .saturation q (shift .saturation p x)).toColor := by
  simp only [shift_saturation, IsFlat] at hflat ⊢
  rcases hflat with hzero | hends
  · rw [hzero]
    rcases hx with ⟨hhue, -⟩ | ⟨hs, -⟩
    · rw [hhue]
    · have hstay : clamp (0 + q) = 0 := h.clamp_zero hs hzero
      exact toColor_eq_of_isFlat (Or.inl hstay) (Or.inl hstay) rfl rfl
  · exact toColor_eq_of_isFlat (Or.inr hends) (Or.inr hends) rfl rfl

/-- Whatever a step makes a colour forget, another step in the same direction leads to the same
colour as from the components that it would have remembered. -/
theorem toColor_shift_toHsl (hx : x.IsSettled) (hbounds : x.InBounds) (hturn : x.hue < 360)
    (hk : k ≠ .hue) (h : SameDirection p q) :
    (shift k q (shift k p x).toColor.toHsl).toColor = (shift k q (shift k p x)).toColor := by
  rcases (hbounds.shift hk p).isFlat_or_isChromatic with hflat | hchromatic
  · rw [hflat.toHsl_toColor_eq]
    cases k with
    | hue => exact absurd rfl hk
    | saturation => exact toColor_shift_saturation hx h hflat
    | lightness =>
      have hstay := isFlat_shift_lightness hx h hflat
      simp only [shift_lightness] at hstay ⊢
      exact toColor_eq_of_isFlat (Or.inl rfl) hstay rfl rfl
    | alpha =>
      simp only [shift_alpha] at hflat ⊢
      exact toColor_eq_of_isFlat (Or.inl rfl) hflat rfl rfl
  · have hhue : (shift k p x).hue = x.hue := get_set_of_ne hk.symm _ x
    rw [hchromatic.toHsl_toColor_eq (hhue ▸ hbounds.hue) (hhue ▸ hturn)]

end Hsl

/-! ## Steps of a colour -/

namespace Color

open Adjustment

variable {c : Color Rat} {k : HslComponent} {p q : Rat}

theorem adjust_shift_shift (hc : c.InGamut) (hk : k ≠ .hue) (h : SameDirection p q) :
    (c.adjust (Hsl.shift k p)).adjust (Hsl.shift k q) = c.adjust (Hsl.shift k (p + q)) := by
  calc (c.adjust (Hsl.shift k p)).adjust (Hsl.shift k q)
      = (Hsl.shift k q (Hsl.shift k p c.toHsl)).toColor :=
        Hsl.toColor_shift_toHsl (Hsl.isSettled_toHsl hc.inRange) hc.toHsl_inBounds
          c.toHsl_hue_mem.2 hk h
    _ = (Hsl.shift k (p + q) c.toHsl).toColor := by
        rw [Hsl.shift_shift (hc.toHsl_inBounds.inUnit_get hk) h]

/-- No step, no change. -/
theorem adjust_shift_zero (hc : c.InGamut) (hk : k ≠ .hue) : c.adjust (Hsl.shift k 0) = c := by
  have hsame : Hsl.shift k 0 c.toHsl = c.toHsl := by
    rw [Hsl.shift, add_zero, clamp_eq_self (hc.toHsl_inBounds.inUnit_get hk), Hsl.set_get]
  rw [adjust, hsame, hc.inRange.hasHsl.toColor_eq]

end Color

namespace Adjustment

variable {f : Adjustment} {c : Color Rat} {unit : String}

/-- The adjustments that move a component by a step. -/
def steps : List Adjustment := [saturate, desaturate, lighten, darken, fadeIn, fadeOut]

/-- The step for an amount of one. -/
def rate (f : Adjustment) (unit : String) : Rat :=
  match f with
  | saturate | lighten => 1 / 100
  | desaturate | darken => -(1 / 100)
  | fadeIn => opacityAmount ⟨1, unit⟩
  | fadeOut => -opacityAmount ⟨1, unit⟩
  | fade | spin | tint | shade => 0

theorem opacityAmount_eq_mul (x : Rat) (unit : String) :
    opacityAmount ⟨x, unit⟩ = x * opacityAmount ⟨1, unit⟩ := by
  rw [opacityAmount, opacityAmount]
  split <;> ring

theorem newValue_eq_clamp (hf : f ∈ steps) (x v : Rat) (unit : String) :
    f.newValue ⟨x, unit⟩ v = clamp (v + x * f.rate unit) := by
  cases f with
  | saturate | lighten =>
    rw [newValue, rate, mul_one_div]
  | desaturate | darken =>
    rw [newValue, rate, mul_neg, mul_one_div, sub_eq_add_neg]
  | fadeIn => rw [newValue, rate, ← opacityAmount_eq_mul]
  | fadeOut => rw [newValue, rate, mul_neg, ← opacityAmount_eq_mul, sub_eq_add_neg]
  | fade | spin | tint | shade => simp [steps] at hf

/-- The component that moves is one of those that are clamped. -/
theorem exists_component_of_mem_steps (hf : f ∈ steps) :
    ∃ k, f.component? = some k ∧ k ≠ .hue := by
  cases f with
  | saturate | desaturate => exact ⟨.saturation, rfl, by decide⟩
  | lighten | darken => exact ⟨.lightness, rfl, by decide⟩
  | fadeIn | fadeOut => exact ⟨.alpha, rfl, by decide⟩
  | fade | spin | tint | shade => simp [steps] at hf

theorem apply_eq_adjust_shift (hf : f ∈ steps) {k : HslComponent} (hk : f.component? = some k)
    (c : Color Rat) (x : Rat) (unit : String) :
    f.apply c ⟨x, unit⟩ = c.adjust (Hsl.shift k (x * f.rate unit)) := by
  have hedit : f.edit k ⟨x, unit⟩ = Hsl.shift k (x * f.rate unit) := by
    funext y
    rw [edit_exact, newValue_eq_clamp hf, Hsl.shift]
  rw [apply_eq_adjust hk, hedit]

/-- Two amounts that are not negative make steps in one direction. -/
theorem sameDirection_mul {x y : Rat} (hx : 0 ≤ x) (hy : 0 ≤ y) (r : Rat) :
    SameDirection (x * r) (y * r) := by
  rcases le_total 0 r with hr | hr
  · exact Or.inl ⟨mul_nonneg hx hr, mul_nonneg hy hr⟩
  · exact Or.inr ⟨mul_nonpos_of_nonneg_of_nonpos hx hr, mul_nonpos_of_nonneg_of_nonpos hy hr⟩

theorem apply_apply (hf : f ∈ steps) (hc : c.InGamut) {x y : Rat} (hx : 0 ≤ x) (hy : 0 ≤ y) :
    f.apply (f.apply c ⟨x, unit⟩) ⟨y, unit⟩ = f.apply c ⟨x + y, unit⟩ := by
  obtain ⟨k, hk, hhue⟩ := exists_component_of_mem_steps hf
  simp only [apply_eq_adjust_shift hf hk]
  rw [Color.adjust_shift_shift hc hhue (sameDirection_mul hx hy _), add_mul]

theorem apply_zero (hf : f ∈ steps) (hc : c.InGamut) : f.apply c ⟨0, unit⟩ = c := by
  obtain ⟨k, hk, hhue⟩ := exists_component_of_mem_steps hf
  rw [apply_eq_adjust_shift hf hk, zero_mul, Color.adjust_shift_zero hc hhue]

theorem inGamut_apply_of_mem_steps (hf : f ∈ steps) (hc : c.InGamut) (amount : Dimension Rat) :
    (f.apply c amount).InGamut := by
  have hall : f.Allows amount := by
    rintro (rfl | rfl) <;> simp [steps] at hf
  exact hall.inGamut_apply hc

/-- Amounts one after another add up. -/
theorem foldl_apply (hf : f ∈ steps) (hc : c.InGamut) {amounts : List Rat}
    (h : ∀ x ∈ amounts, 0 ≤ x) :
    amounts.foldl (fun c x => f.apply c ⟨x, unit⟩) c = f.apply c ⟨amounts.sum, unit⟩ := by
  induction amounts generalizing c with
  | nil => exact (apply_zero hf hc).symm
  | cons x rest ih =>
    obtain ⟨hx, hrest⟩ := List.forall_mem_cons.1 h
    rw [List.foldl_cons, ih (inGamut_apply_of_mem_steps hf hc _) hrest,
      apply_apply hf hc hx (List.sum_nonneg hrest), List.sum_cons]

end Adjustment

/-! ## The grey of a colour -/

namespace Color

open Adjustment

variable {c : Color Rat}

theorem toHsl_lightness (c : Color Rat) :
    c.toHsl.lightness = (c.highest / 255 + c.lowest / 255) / 2 := by
  rw [toHsl_exact]
  dsimp only
  split <;> rfl

/-- The grey of a colour lies halfway between its largest and its smallest channel. -/
theorem greyscale_eq (h : c.InGamut) :
    c.greyscale =
      ⟨(c.highest + c.lowest) / 2, (c.highest + c.lowest) / 2, (c.highest + c.lowest) / 2,
        c.alpha⟩ := by
  have hzero : clamp (c.toHsl.saturation - 100 / 100) = 0 := by
    rw [clamp_eq_zero_iff]
    linarith [h.toHsl_inBounds.saturation.2]
  have hlevel : (c.highest / 255 + c.lowest / 255) / 2 * 255 = (c.highest + c.lowest) / 2 := by
    ring
  calc c.greyscale
      = (Adjustment.desaturate.edit .saturation (Dimension.ofNumber 100) c.toHsl).toColor := rfl
    _ = (c.toHsl.set .saturation 0).toColor := by
        rw [edit_exact, newValue, Dimension.ofNumber, Hsl.get, hzero]
    _ = _ := by
        rw [Hsl.set, Hsl.toColor_of_saturation_zero, toHsl_lightness, toHsl_alpha, hlevel]

theorem greyscale_greyscale (h : c.InGamut) : c.greyscale.greyscale = c.greyscale := by
  have hhalf (m : Rat) : (m + m) / 2 = m := by ring
  have hgrey := h.greyscale
  rw [greyscale_eq h] at hgrey ⊢
  rw [greyscale_eq hgrey]
  simp only [highest, lowest, sup_idem, inf_idem, hhalf]

end Color

namespace Adjustment

/-- Of a colour in gamut: two amounts of one unit that are not negative, or any number of them, one
after another, come to their sum, whatever the colours on the way forget; and the grey of the
colour has half the sum of its largest and its smallest channel, and is its own grey. -/
theorem apply_amounts_add_up {c : Color Rat} (hc : c.InGamut) :
    (∀ f ∈ steps, ∀ (unit : String) (x y : Rat), 0 ≤ x → 0 ≤ y →
      f.apply (f.apply c ⟨x, unit⟩) ⟨y, unit⟩ = f.apply c ⟨x + y, unit⟩) ∧
    (∀ f ∈ steps, ∀ (unit : String) (amounts : List Rat), (∀ x ∈ amounts, 0 ≤ x) →
      amounts.foldl (fun c x => f.apply c ⟨x, unit⟩) c = f.apply c ⟨amounts.sum, unit⟩) ∧
    c.greyscale =
      ⟨(c.highest + c.lowest) / 2, (c.highest + c.lowest) / 2, (c.highest + c.lowest) / 2,
        c.alpha⟩ ∧
    c.greyscale.greyscale = c.greyscale := by
  refine ⟨?_, ?_, Color.greyscale_eq hc, Color.greyscale_greyscale hc⟩
  · intro f hf unit x y hx hy
    exact apply_apply hf hc hx hy
  · intro f hf unit amounts h
    exact foldl_apply hf hc h

/-- Orange, which turns grey on the way and loses its hue, and white, which loses its saturation
as well; and opacities given as plain numbers. -/
theorem apply_amounts_add_up_orange :
    let orange : Color Rat := ⟨200, 120, 40, 1 / 2⟩
    orange.InGamut ∧ desaturate ∈ steps ∧ lighten ∈ steps ∧ fadeOut ∈ steps ∧
      desaturate.apply orange ⟨90, "%"⟩ = ⟨120, 120, 120, 1 / 2⟩ ∧
      desaturate.apply (desaturate.apply orange ⟨90, "%"⟩) ⟨30, "%"⟩ =
        desaturate.apply orange ⟨90 + 30, "%"⟩ ∧
      lighten.apply orange ⟨60, "%"⟩ = ⟨255, 255, 255, 1 / 2⟩ ∧
      [60, 0, 1 / 3].foldl (fun c x => lighten.apply c ⟨x, "%"⟩) orange =
        lighten.apply orange ⟨[60, 0, 1 / 3].sum, "%"⟩ ∧
      fadeOut.apply orange ⟨1 / 8, ""⟩ = ⟨200, 120, 40, 3 / 8⟩ ∧
      fadeOut.apply (fadeOut.apply orange ⟨1 / 8, ""⟩) ⟨1 / 4, ""⟩ =
        fadeOut.apply orange ⟨1 / 8 + 1 / 4, ""⟩ ∧
      orange.greyscale.greyscale = orange.greyscale := by
  intro orange
  have horange : orange.InGamut := by
    refine ⟨?_, ?_⟩
    · simp only [orange, Color.InRange]
      norm_num
    · simp only [orange, InUnit]
      norm_num
  obtain ⟨htwo, hmany, -, htwice⟩ := apply_amounts_add_up horange
  refine ⟨horange, by decide, by decide, by decide, by decide +kernel, ?_, by decide +kernel, ?_,
    by decide +kernel, ?_, htwice⟩
  · exact htwo desaturate (by decide) "%" 90 30 (by norm_num) (by norm_num)
  · refine hmany lighten (by decide) "%" [60, 0, 1 / 3] ?_
    norm_num
  · exact htwo fadeOut (by decide) "" (1 / 8) (1 / 4) (by norm_num) (by norm_num)

end Adjustment

end StyleFunctions
