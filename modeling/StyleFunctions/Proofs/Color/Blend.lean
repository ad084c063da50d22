import Mathlib.Tactic
import StyleFunctions.Color.Blend
import StyleFunctions.Proofs.Color.Gamut

/-!
# Ranges of the blend modes

Nothing draws the results of a blend mode into the range of channels.  They stay there because
every mode is built from three operations that do not leave it: the mirror image of a channel,
the product of two, and the mean of two weighted by a third (`IsChannel.mirror`,
`IsChannel.product`, `IsChannel.mean`).

* `BlendMode.channel_mem` — the range is kept wherever the mode does not turn late.
* `BlendMode.TurnsLate` — overlay and hard light double the channel on which they turn, and turn
  at 128, half a unit past the middle of the range.  In between the doubled channel is out of
  range already.
* `BlendMode.channel_range` — what is left of the range there.
-/

namespace StyleFunctions

/-! ## Channels -/

/-- A number in the range of channels. -/
def IsChannel (x : Rat) : Prop := 0 ≤ x ∧ x ≤ 255

namespace IsChannel

variable {a b w : Rat}

theorem zero : IsChannel 0 := ⟨le_rfl, by norm_num⟩

theorem mirror (ha : IsChannel a) : IsChannel (255 - a) :=
  ⟨sub_nonneg.2 ha.2, sub_le_self 255 ha.1⟩

/-- The mean of two channels, weighted by the part of a third in the whole range. -/
theorem mean (hw : IsChannel w) (ha : IsChannel a) (hb : IsChannel b) :
    IsChannel (a + w * (b - a) / 255) := by
  have hpart : InUnit (w / 255) :=
    ⟨div_nonneg hw.1 (by norm_num), (div_le_one (by norm_num)).2 hw.2⟩
  have hmean : a + w * (b - a) / 255 = b * (w / 255) + a * (1 - w / 255) := by ring
  rw [hmean]
  exact weighted_mem hpart hb ha

/-- The product of two channels, as a mean of black and the one. -/
theorem product (ha : IsChannel a) (hb : IsChannel b) : IsChannel (a * b / 255) := by
  have h := ha.mean zero hb
  rwa [zero_add, sub_zero] at h

/-- The mirror image of the product of the mirror images. -/
theorem screen (ha : IsChannel a) (hb : IsChannel b) :
    IsChannel (255 - (255 - a) * (255 - b) / 255) :=
  (ha.mirror.product hb.mirror).mirror

theorem difference (ha : IsChannel a) (hb : IsChannel b) : IsChannel |a - b| :=
  ⟨abs_nonneg _, abs_sub_le_iff.2 ⟨by linarith [ha.2, hb.1], by linarith [ha.1, hb.2]⟩⟩

theorem average (ha : IsChannel a) (hb : IsChannel b) : IsChannel ((a + b) / 2) := by
  obtain ⟨ha₀, ha₁⟩ := ha
  obtain ⟨hb₀, hb₁⟩ := hb
  constructor <;> linarith

end IsChannel

/-! ## Modes -/

namespace BlendMode

/-- The channel on which a mode turns from its dark formula to its light one lies past the
middle of the range, and the mode has not turned yet. -/
def TurnsLate (mode : BlendMode) (a b : Rat) : Prop :=
  mode = overlay ∧ 255 / 2 < a ∧ a < 128 ∨ mode = hardlight ∧ 255 / 2 < b ∧ b < 128

variable {a b : Rat}

theorem channel_overlay (a b : Rat) : overlay.channel a b =
    if a < 128 then 2 * a * b / 255 else 255 - 2 * (255 - a) * (255 - b) / 255 := rfl

/-- Hard light is overlay with the channels in each other's place. -/
theorem channel_hardlight (a b : Rat) : hardlight.channel a b = overlay.channel b a := rfl

theorem channel_difference (a b : Rat) : difference.channel a b = |a - b| := Scalar.abs_exact _

/-- Negation is the mirror image of a difference with a mirror image. -/
theorem channel_negation (a b : Rat) : negation.channel a b = 255 - |255 - b - a| :=
  congrArg (255 - ·) (Scalar.abs_exact _)

/-- Soft light is the mean of the product and the screen, weighted by the first channel. -/
theorem channel_softlight (a b : Rat) : softlight.channel a b =
    b * a / 255 + a * (255 - (255 - a) * (255 - b) / 255 - b * a / 255) / 255 := rfl

/-- Exclusion is the mean of the first channel and its mirror image, weighted by the second. -/
theorem channel_exclusion (a b : Rat) :
    exclusion.channel a b = a + b * (255 - a - a) / 255 := rfl

/-- On either side of its turn, overlay doubles a channel or a mirror image that is at most
half the range. -/
theorem channel_overlay_mem (ha : IsChannel a) (hb : IsChannel b)
    (hturn : a ≤ 255 / 2 ∨ 128 ≤ a) : IsChannel (overlay.channel a b) := by
  rw [channel_overlay]
  split
  · rename_i hdark
    have hdouble : IsChannel (2 * a) := by
      rcases hturn with h | h
      · exact ⟨by linarith [ha.1], by linarith⟩
      · exact absurd hdark (not_lt.2 h)
    exact hdouble.product hb
  · rename_i hlight
    have hdouble : IsChannel (2 * (255 - a)) :=
      ⟨by linarith [ha.2], by linarith [not_lt.1 hlight]⟩
    exact (hdouble.product hb.mirror).mirror

/-- Where overlay turns late, it doubles a channel that is past the middle of the range. -/
theorem channel_overlay_late (hlow : 255 / 2 < a) (hhigh : a < 128) (hb : IsChannel b) :
    (0 ≤ overlay.channel a b ∧ overlay.channel a b < 256) ∧
      (255 < overlay.channel a b ↔ 255 ^ 2 < 2 * (a * b)) := by
  have hpos : (0 : Rat) < 255 := by norm_num
  have hproduct : 2 * a * b ≤ 2 * a * 255 := mul_le_mul_of_nonneg_left hb.2 (by linarith)
  rw [channel_overlay, if_pos hhigh]
  refine ⟨⟨?_, ?_⟩, ?_⟩
  · exact div_nonneg (mul_nonneg (by linarith) hb.1) hpos.le
  · rw [div_lt_iff₀ hpos]
    linarith
  · rw [lt_div_iff₀ hpos, mul_assoc, sq]

/-- Blended channels stay in their range, unless the mode turns late. -/
theorem channel_mem {mode : BlendMode} (ha : IsChannel a) (hb : IsChannel b)
    (h : ¬ mode.TurnsLate a b) : IsChannel (mode.channel a b) := by
  cases mode with
  | multiply => exact ha.product hb
  | screen => exact ha.screen hb
  | overlay =>
    refine channel_overlay_mem ha hb ?_
    by_contra hcon
    obtain ⟨hlow, hhigh⟩ := not_or.1 hcon
    exact h (Or.inl ⟨rfl, not_le.1 hlow, not_le.1 hhigh⟩)
  | softlight =>
    rw [channel_softlight]
    exact ha.mean (hb.product ha) (ha.screen hb)
  | hardlight =>
    rw [channel_hardlight]
    refine channel_overlay_mem hb ha ?_
    by_contra hcon
    obtain ⟨hlow, hhigh⟩ := not_or.1 hcon
    exact h (Or.inr ⟨rfl, not_le.1 hlow, not_le.1 hhigh⟩)
  | difference =>
    rw [channel_difference]
    exact ha.difference hb
  | exclusion =>
    rw [channel_exclusion]
    exact hb.mean ha ha.mirror
  | average => exact ha.average hb
  | negation =>
    rw [channel_negation]
    exact (hb.mirror.difference ha).mirror

/-- Channels in their range are blended into it by every mode, with one exception: where overlay
or hard light turns late, the result lies below 256 and is out of range exactly if twice the
product of the channels is more than the square of 255. -/
theorem channel_range (mode : BlendMode) (ha : IsChannel a) (hb : IsChannel b) :
    (¬ mode.TurnsLate a b → IsChannel (mode.channel a b)) ∧
      (mode.TurnsLate a b →
        (0 ≤ mode.channel a b ∧ mode.channel a b < 256) ∧
          (255 < mode.channel a b ↔ 255 ^ 2 < 2 * (a * b))) := by
  refine ⟨channel_mem ha hb, ?_⟩
  rintro (⟨rfl, hlow, hhigh⟩ | ⟨rfl, hlow, hhigh⟩)
  · exact channel_overlay_late hlow hhigh hb
  · rw [channel_hardlight, mul_comm a b]
    exact channel_overlay_late hlow hhigh ha

/-- Overlay turns late on 127.75: with a white channel it leaves the range by half a unit.  With
the channels in each other's place it does not turn late and stays within. -/
theorem channel_range_late_overlay :
    IsChannel (511 / 4) ∧ IsChannel 255 ∧
      overlay.TurnsLate (511 / 4) 255 ∧ ¬ overlay.TurnsLate 255 (511 / 4) ∧
      255 < overlay.channel (511 / 4 : Rat) 255 ∧ overlay.channel (511 / 4 : Rat) 255 < 256 ∧
      IsChannel (overlay.channel 255 (511 / 4)) := by
  have hlate : IsChannel (511 / 4) := ⟨by norm_num, by norm_num⟩
  have hwhite : IsChannel 255 := ⟨by norm_num, le_rfl⟩
  have hturns : overlay.TurnsLate (511 / 4) 255 := Or.inl ⟨rfl, by norm_num, by norm_num⟩
  have hearly : ¬ overlay.TurnsLate 255 (511 / 4) := by
    rintro (⟨-, -, h⟩ | ⟨h, -⟩)
    · norm_num at h
    · cases h
  obtain ⟨⟨-, hbelow⟩, hout⟩ := (channel_range overlay hlate hwhite).2 hturns
  exact ⟨hlate, hwhite, hturns, hearly, hout.2 (by norm_num), hbelow,
    (channel_range overlay hwhite hlate).1 hearly⟩

end BlendMode

end StyleFunctions
