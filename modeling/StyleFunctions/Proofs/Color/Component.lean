import Mathlib.Tactic
import StyleFunctions.Function.Adjustment
import StyleFunctions.Proofs.Number.Exact

/-!
# Components and their edits

Most adjustments look at a colour by hue, saturation, lightness and opacity, and edit one of
these components.

* `Hsl.get` and `Hsl.set` — a component read and replaced.
* `Adjustment.component?` and `Adjustment.edited` — which component an adjustment edits, and what
  becomes of it; `Adjustment.apply_eq_adjust` says that it does nothing else.
* `Adjustment.newValue` — the same edits in terms of exact numbers.
-/

namespace StyleFunctions

/-- The components that adjustments edit. -/
inductive HslComponent
  | hue | saturation | lightness | alpha
  deriving DecidableEq, Repr

namespace Hsl

section

variable {α : Type}

/-- A component of a colour. -/
def get : HslComponent → Hsl α → α
  | .hue, x => x.hue
  | .saturation, x => x.saturation
  | .lightness, x => x.lightness
  | .alpha, x => x.alpha

/-- The colour with another value for a component. -/
def set : HslComponent → α → Hsl α → Hsl α
  | .hue, v, x => { x with hue := v }
  | .saturation, v, x => { x with saturation := v }
  | .lightness, v, x => { x with lightness := v }
  | .alpha, v, x => { x with alpha := v }

theorem get_set_of_ne {j k : HslComponent} (h : j ≠ k) (v : α) (x : Hsl α) :
    get j (set k v x) = get j x := by
  cases j <;> cases k <;> first | exact absurd rfl h | rfl

theorem set_comm {j k : HslComponent} (h : j ≠ k) (v w : α) (x : Hsl α) :
    set j v (set k w x) = set k w (set j v x) := by
  cases j <;> cases k <;> first | exact absurd rfl h | rfl

end

end Hsl

namespace Adjustment

section

variable {α : Type} [Scalar α]

/-- The component that an adjustment edits.  Mixtures change the channels instead. -/
def component? : Adjustment → Option HslComponent
  | saturate | desaturate => some .saturation
  | lighten | darken => some .lightness
  | spin => some .hue
  | fade | fadeIn | fadeOut => some .alpha
  | tint | shade => none

/-- What an adjustment makes of its component. -/
def edited (f : Adjustment) (amount : Dimension α) (v : α) : α :=
  match f with
  | saturate | lighten => Scalar.clampUnit (v + amount.value / 100)
  | desaturate | darken => Scalar.clampUnit (v - amount.value / 100)
  | spin => Color.turnHue v amount.value
  | fadeIn => Scalar.clampUnit (v + Color.opacityShare amount)
  | fadeOut => Scalar.clampUnit (v - Color.opacityShare amount)
  | fade => Scalar.clampUnit (Color.opacityShare amount)
  | tint | shade => v

/-- The edit of an adjustment, on all components. -/
def edit (f : Adjustment) (k : HslComponent) (amount : Dimension α) (x : Hsl α) : Hsl α :=
  x.set k (f.edited amount (x.get k))

/-- An adjustment edits its component and nothing else. -/
theorem apply_eq_adjust {f : Adjustment} {k : HslComponent} (h : f.component? = some k)
    (c : Color α) (amount : Dimension α) : f.apply c amount = c.adjust (f.edit k amount) := by
  cases f <;> cases h <;> rfl

end

/-! ## Exact edits -/

/-- A number drawn into the unit interval. -/
def clamp (v : Rat) : Rat := (v ⊔ 0) ⊓ 1

/-- An angle brought into the first turn. -/
def firstTurn (v : Rat) : Rat := v - 360 * ⌊v / 360⌋

theorem firstTurn_mem (v : Rat) : 0 ≤ firstTurn v ∧ firstTurn v < 360 := by
  have hle := Int.floor_le (v / 360)
  have hlt := Int.lt_floor_add_one (v / 360)
  rw [firstTurn]
  constructor <;> linarith

/-- What an amount says about the opacity: a percentage is its hundredth, any other amount is
taken as it is. -/
def opacityAmount (amount : Dimension Rat) : Rat :=
  if amount.unit = "%" then amount.value / 100 else amount.value

/-- The new value of a component: a sum or difference drawn into the unit interval, an opacity
that replaces the old one, or a sum of angles brought into the first turn. -/
def newValue (f : Adjustment) (amount : Dimension Rat) (v : Rat) : Rat :=
  match f with
  | saturate | lighten => clamp (v + amount.value / 100)
  | desaturate | darken => clamp (v - amount.value / 100)
  | spin => firstTurn (v + amount.value)
  | fadeIn => clamp (v + opacityAmount amount)
  | fadeOut => clamp (v - opacityAmount amount)
  | fade => clamp (opacityAmount amount)
  | tint | shade => v

theorem turnHue_exact (hue angle : Rat) :
    Color.turnHue hue angle =
      if Scalar.remainder (hue + angle) 360 < 0 then Scalar.remainder (hue + angle) 360 + 360
      else Scalar.remainder (hue + angle) 360 := rfl

/-- A turned hue is brought into the first turn, whatever the sign of the sum. -/
theorem turnHue_eq (hue angle : Rat) : Color.turnHue hue angle = firstTurn (hue + angle) := by
  have hlow : -(360 : Rat) < Scalar.remainder (hue + angle) 360 := by
    exact_mod_cast Scalar.neg_lt_remainder (m := 360) (by norm_num) (hue + angle)
  have hhigh : Scalar.remainder (hue + angle) 360 < (360 : Rat) := by
    exact_mod_cast Scalar.remainder_lt (m := 360) (by norm_num) (hue + angle)
  obtain ⟨n, hn⟩ := Scalar.exists_remainder_add (hue + angle) 360
  push_cast at hn
  rw [turnHue_exact, firstTurn]
  -- The remainder has the sign of the sum, so that its turns are one too few for a negative one.
  split
  · have hfloor : ⌊(hue + angle) / 360⌋ = n - 1 := by
      rw [Int.floor_eq_iff]
      push_cast
      constructor <;> linarith
    rw [hfloor]
    push_cast
    linarith
  · have hfloor : ⌊(hue + angle) / 360⌋ = n := by
      rw [Int.floor_eq_iff]
      constructor <;> linarith
    rw [hfloor]
    linarith

theorem opacityShare_exact (amount : Dimension Rat) :
    Color.opacityShare amount = opacityAmount amount := by
  rw [Color.opacityShare, Dimension.isPercentage, opacityAmount]
  simp only [beq_iff_eq]

theorem edited_exact (f : Adjustment) (amount : Dimension Rat) (v : Rat) :
    f.edited amount v = f.newValue amount v := by
  cases f with
  | spin => exact turnHue_eq v amount.value
  | tint | shade => rfl
  | saturate | lighten | desaturate | darken => exact Scalar.clampUnit_exact _
  | fadeIn | fadeOut | fade =>
    rw [edited, newValue, opacityShare_exact]
    exact Scalar.clampUnit_exact _

end Adjustment

end StyleFunctions
