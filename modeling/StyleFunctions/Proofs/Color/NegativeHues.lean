import Mathlib.Tactic
import StyleFunctions.Proofs.Color.HsvAgreement

/-!
# Negative hues of hue, saturation and value

A hue below zero lands in a sector below zero, which is counted back from the last one.  Whole
turns should therefore not change a colour.  They do, for every hue inside a sector: sector and
part of a negative hue are both cut towards zero, so that the sector is one too high and the part
one too low, and only the sector is brought back onto the circle.

* `Hsv.toColor_intCast` — the colour of a whole hue, by sector and part as they are cut.
* `Hsv.Misplaced` — the hues for which these are not those of the angle;
  `Hsv.toColor_of_not_misplaced` and `Hsv.toColor_of_misplaced` say which colours they have.
* `Hsv.sectorColor_succ_eq_iff` and `Hsv.inRange_sectorColor_succ` — what a sector too many does to
  a colour: it takes two channels up in the sectors where one rises, and down in those where one
  falls.
* `Hsv.toColor_add_whole_turns` — the hues and turns for which the colour stays the same, and the
  hues for which all channels stay in range.
-/

namespace StyleFunctions

namespace Hsv

/-! ## Sectors of any turn -/

/-- The colour in a sector, counted over any number of turns, with a part of the sector before
it. -/
def sectorColor (sector : Int) (part s v alpha : Rat) : Color Rat :=
  let levels := sectorLevels (sector % 6) v (v * (1 - s)) (v * (1 - part * s))
    (v * (1 - (1 - part) * s))
  ⟨levels.1 * 255, levels.2.1 * 255, levels.2.2 * 255, alpha⟩

theorem sectorColor_add_turns (sector k : Int) (part s v alpha : Rat) :
    sectorColor (sector + 6 * k) part s v alpha = sectorColor sector part s v alpha := by
  unfold sectorColor
  rw [Int.add_mul_emod_self_left]

/-- Without saturation or value, sector and part do not matter. -/
theorem sectorColor_of_flat {s v : Rat} (h : s = 0 ∨ v = 0) (sector : Int) (part alpha : Rat) :
    sectorColor sector part s v alpha = ⟨v * 255, v * 255, v * 255, alpha⟩ := by
  have hlevel (x : Rat) : v * (1 - x * s) = v := by
    rcases h with rfl | rfl <;> ring
  have hbottom : v * (1 - s) = v := by simpa using hlevel 1
  unfold sectorColor
  simp only [hlevel, hbottom]
  unfold sectorLevels
  split <;> rfl

/-- Dividing by 360 first changes the sector by whole turns only, and the part not at all. -/
theorem tdiv_tmod_turn (h : Int) :
    ((h.tmod 360).tdiv 60).tmod 6 % 6 = h.tdiv 60 % 6 ∧
      h.tmod 360 - 60 * ((h.tmod 360).tdiv 60).tmod 6 = h.tmod 60 := by
  have hnonneg {n : Int} (hn : 0 ≤ n) :
      ((n.tmod 360).tdiv 60).tmod 6 = (n / 60) % 6 ∧ n.tmod 360 = n % 360 ∧
        n.tdiv 60 = n / 60 ∧ n.tmod 60 = n % 60 := by
    have hturn : n.tmod 360 = n % 360 := Int.tmod_eq_emod_of_nonneg hn
    have hsector : (n % 360).tdiv 60 = n % 360 / 60 :=
      Int.tdiv_eq_ediv_of_nonneg (Int.emod_nonneg n (by norm_num))
    refine ⟨?_, hturn, Int.tdiv_eq_ediv_of_nonneg hn, Int.tmod_eq_emod_of_nonneg hn⟩
    rw [hturn, hsector, Int.tmod_eq_emod_of_nonneg (by omega)]
    omega
  rcases le_total 0 h with hh | hh
  · obtain ⟨hsector, hturn, hwhole, hpart⟩ := hnonneg hh
    rw [hsector, hturn, hwhole, hpart]
    omega
  · -- with the opposite sign, all quotients and remainders change theirs
    obtain ⟨n, rfl⟩ : ∃ n, h = -n := ⟨-h, (neg_neg h).symm⟩
    obtain ⟨hsector, hturn, hwhole, hpart⟩ := hnonneg (n := n) (by omega)
    simp only [Int.neg_tmod, Int.neg_tdiv, hsector, hwhole, hpart]
    rw [hturn]
    omega

/-- A whole hue is cut towards zero, its sector as well as the part of the sector. -/
theorem toColor_intCast (h : Int) (s v alpha : Rat) :
    Hsv.toColor ⟨(h : Rat), s, v, alpha⟩ =
      sectorColor (h.tdiv 60) ((h.tmod 60 : Int) / 60) s v alpha := by
  obtain ⟨hindex, hpart⟩ := tdiv_tmod_turn h
  obtain ⟨sector, hsector⟩ : ∃ sector, sector = ((h.tmod 360).tdiv 60).tmod 6 := ⟨_, rfl⟩
  rw [← hsector] at hindex hpart
  have hdegrees : wholeDegrees (h : Rat) = (h.tmod 360 : Int) := by
    rw [wholeDegrees_exact, Rounding.towardZero_intCast]
  have htrunc : Scalar.trunc (((h.tmod 360 : Int) : Rat) / 60) = ((h.tmod 360).tdiv 60 : Int) :=
    congrArg Int.cast (Rounding.towardZero_intCast_div (h.tmod 360) (m := 60) (by norm_num))
  have hremainder : Scalar.remainder (((h.tmod 360).tdiv 60 : Int) : Rat) 6 = (sector : Rat) := by
    rw [Scalar.remainder_intCast _ (by norm_num), hsector]
    norm_cast
  have hrest : ((h.tmod 360 : Int) : Rat) / 60 - sector = (h.tmod 60 : Int) / 60 := by
    rw [← hpart]
    push_cast
    ring
  have hcast : Scalar.toInt64 (sector : Rat) = sector := by
    have hsmall : -6 < sector ∧ sector < 6 := by
      rw [hsector]
      exact ⟨Int.lt_tmod_of_pos _ (by norm_num), Int.tmod_lt_of_pos _ (by norm_num)⟩
    have hdef : Scalar.toInt64 (sector : Rat) =
        Rounding.saturate Rounding.minInt64 Rounding.maxInt64 (Rounding.towardZero sector) := rfl
    rw [hdef, Rounding.towardZero_intCast]
    refine Rounding.saturate_eq_self ?_ ?_
    · rw [Rounding.minInt64]
      omega
    · rw [Rounding.maxInt64]
      omega
  rw [toColor_exact]
  simp only [hdegrees, htrunc, hremainder, hrest, hcast, hindex]
  rfl

/-! ## Misplaced hues -/

/-- A negative hue inside a sector. -/
def Misplaced (h : Int) : Prop := h < 0 ∧ ¬ 60 ∣ h

/-- The part of its sector that lies before a hue, on the circle. -/
def sectorPart (h : Int) : Rat := (h % 60 : Int) / 60

theorem sectorPart_mem (h : Int) : 0 ≤ sectorPart h ∧ sectorPart h < 1 := by
  have hlow : (0 : Rat) ≤ (h % 60 : Int) := by exact_mod_cast Int.emod_nonneg h (by norm_num)
  have hhigh : ((h % 60 : Int) : Rat) < 60 := by exact_mod_cast Int.emod_lt_of_pos h (by norm_num)
  unfold sectorPart
  constructor
  · positivity
  · linarith

theorem toColor_of_not_misplaced {h : Int} (hh : ¬ Misplaced h) (s v alpha : Rat) :
    Hsv.toColor ⟨(h : Rat), s, v, alpha⟩ = sectorColor (h / 60) (sectorPart h) s v alpha := by
  have hplace : 0 ≤ h ∨ 60 ∣ h := by
    unfold Misplaced at hh
    omega
  have hdiv : h.tdiv 60 = h / 60 := by
    rw [Int.tdiv_eq_ediv, if_pos hplace, add_zero]
  have hmod : h.tmod 60 = h % 60 := by
    rw [Int.tmod_eq_emod, if_pos hplace]
    norm_num
  rw [toColor_intCast, hdiv, hmod, sectorPart]

/-- The sector of a misplaced hue is one too high, and its part one too low. -/
theorem toColor_of_misplaced {h : Int} (hh : Misplaced h) (s v alpha : Rat) :
    Hsv.toColor ⟨(h : Rat), s, v, alpha⟩ =
      sectorColor (h / 60 + 1) (sectorPart h - 1) s v alpha := by
  have hplace : ¬ (0 ≤ h ∨ 60 ∣ h) := by
    unfold Misplaced at hh
    omega
  have hdiv : h.tdiv 60 = h / 60 + 1 := by
    rw [Int.tdiv_eq_ediv, if_neg hplace]
    rfl
  have hmod : h.tmod 60 = h % 60 - 60 := by
    rw [Int.tmod_eq_emod, if_neg hplace]
    rfl
  have hpart : ((h % 60 - 60 : Int) : Rat) / 60 = sectorPart h - 1 := by
    rw [sectorPart]
    push_cast
    ring
  rw [toColor_intCast, hdiv, hmod, hpart]

/-! ## A sector too many -/

theorem sectorColor_succ_eq_iff (sector : Int) {part : Rat} (hpart : part < 1)
    (s v alpha : Rat) :
    sectorColor (sector + 1) (part - 1) s v alpha = sectorColor sector part s v alpha ↔
      s = 0 ∨ v = 0 := by
  constructor
  · intro heq
    have hzero : v * s * (1 - part) = 0 := by
      have hindex : sector % 6 = 0 ∨ sector % 6 = 1 ∨ sector % 6 = 2 ∨ sector % 6 = 3 ∨
          sector % 6 = 4 ∨ sector % 6 = 5 := by
        omega
      rw [sectorColor, sectorColor, Int.add_emod] at heq
      rcases hindex with h | h | h | h | h | h <;>
        · simp only [h, Int.reduceAdd, Int.reduceMod, sectorLevels, Color.mk.injEq] at heq
          linarith
    rcases mul_eq_zero.1 hzero with hflat | hrest
    · exact (mul_eq_zero.1 hflat).symm
    · exact absurd hrest (by linarith)
  · intro hflat
    rw [sectorColor_of_flat hflat, sectorColor_of_flat hflat]

/-! ## Channels in range -/

theorem channel_mem_iff (x : Rat) : (0 ≤ x * 255 ∧ x * 255 ≤ 255) ↔ InUnit x := by
  unfold InUnit
  constructor <;> rintro ⟨h₀, h₁⟩ <;> constructor <;> linarith

variable {sector : Int} {part s v : Rat}

/-- The level of the channel between top and bottom.  It rises in every other sector, from the
first one on, and falls in the sectors between. -/
def movingLevel (sector : Int) (part s v : Rat) : Rat :=
  if Even sector then v * (1 - (1 - part) * s) else v * (1 - part * s)

theorem inRange_sectorColor_iff (sector : Int) (part s v alpha : Rat) :
    (sectorColor sector part s v alpha).InRange ↔
      InUnit v ∧ InUnit (v * (1 - s)) ∧ InUnit (movingLevel sector part s v) := by
  unfold sectorColor movingLevel Color.InRange
  by_cases h : Even sector
  · have hindex : sector % 6 = 0 ∨ sector % 6 = 2 ∨ sector % 6 = 4 := by
      rw [Int.even_iff] at h
      omega
    rw [if_pos h]
    rcases hindex with h | h | h <;>
      · simp only [h, sectorLevels, channel_mem_iff]
        tauto
  · have hindex : sector % 6 = 1 ∨ sector % 6 = 3 ∨ sector % 6 = 5 := by
      rw [Int.even_iff] at h
      omega
    rw [if_neg h]
    rcases hindex with h | h | h
    · simp only [h, sectorLevels, channel_mem_iff]
      tauto
    · simp only [h, sectorLevels, channel_mem_iff]
      tauto
    · simp only [h, sectorLevels, channel_mem_iff]

/-- A level is lowered by less than itself. -/
theorem inUnit_lowered (hv : InUnit v) {x : Rat} (hx : InUnit x) : InUnit (v * (1 - x)) := by
  have hrest : 0 ≤ 1 - x := sub_nonneg.2 hx.2
  constructor
  · exact mul_nonneg hv.1 hrest
  · exact mul_le_one₀ hv.2 hrest (by linarith [hx.1])

theorem inUnit_mul {x y : Rat} (hx : InUnit x) (hy : InUnit y) : InUnit (x * y) :=
  ⟨mul_nonneg hx.1 hy.1, mul_le_one₀ hx.2 hy.1 hy.2⟩

/-- A sector and a part of it that belong together keep all channels in range. -/
theorem inRange_sectorColor (hpart : InUnit part) (hs : InUnit s) (hv : InUnit v)
    (sector : Int) (alpha : Rat) : (sectorColor sector part s v alpha).InRange := by
  have hrest : InUnit (1 - part) := ⟨sub_nonneg.2 hpart.2, by linarith [hpart.1]⟩
  rw [inRange_sectorColor_iff, movingLevel]
  refine ⟨hv, inUnit_lowered hv hs, ?_⟩
  split
  · exact inUnit_lowered hv (inUnit_mul hrest hs)
  · exact inUnit_lowered hv (inUnit_mul hpart hs)

/-- A sector too many takes two channels up where one rises, and down where one falls. -/
theorem inRange_sectorColor_succ (hpart : InUnit part) (hs : InUnit s) (hv : InUnit v)
    (sector : Int) (alpha : Rat) :
    (sectorColor (sector + 1) (part - 1) s v alpha).InRange ↔
      if Even sector then v * (1 + s * (1 - part)) ≤ 1 else 0 ≤ v * (1 - s * (2 - part)) := by
  have hbottom := inUnit_lowered hv hs
  have hrest : 0 ≤ 1 - part := sub_nonneg.2 hpart.2
  have hshift : 0 ≤ v * (s * (1 - part)) := mul_nonneg hv.1 (mul_nonneg hs.1 hrest)
  rw [inRange_sectorColor_iff, movingLevel]
  by_cases h : Even sector
  · have hnext : ¬ Even (sector + 1) := by
      rw [Int.even_add_one]
      exact not_not.2 h
    have hlevel : v * (1 - (part - 1) * s) = v * (1 + s * (1 - part)) := by ring
    rw [if_pos h, if_neg hnext, hlevel, InUnit]
    constructor
    · rintro ⟨-, -, -, htop⟩
      exact htop
    · intro htop
      exact ⟨hv, hbottom, by linarith [hv.1], htop⟩
  · have hnext : Even (sector + 1) := Int.even_add_one.2 h
    have hlevel : v * (1 - (1 - (part - 1)) * s) = v * (1 - s * (2 - part)) := by ring
    rw [if_neg h, if_pos hnext, hlevel, InUnit]
    constructor
    · rintro ⟨-, -, hlow, -⟩
      exact hlow
    · intro hlow
      exact ⟨hv, hbottom, hlow, by linarith [hbottom.2]⟩

/-! ## Whole turns -/

theorem sectorPart_add_turns (h k : Int) : sectorPart (h + 360 * k) = sectorPart h := by
  have hmod : (h + 360 * k) % 60 = h % 60 := by omega
  rw [sectorPart, sectorPart, hmod]

theorem ediv_add_turns (h k : Int) : (h + 360 * k) / 60 = h / 60 + 6 * k := by omega

/-- Of two hues that are whole turns apart and of which one is misplaced, the colours are the
same for greys only. -/
theorem toColor_eq_iff_of_misplaced {h k : Int} (hh : Misplaced h)
    (hk : ¬ Misplaced (h + 360 * k)) (s v alpha : Rat) :
    Hsv.toColor ⟨((h + 360 * k : Int) : Rat), s, v, alpha⟩ =
      Hsv.toColor ⟨(h : Rat), s, v, alpha⟩ ↔ s = 0 ∨ v = 0 := by
  rw [toColor_of_not_misplaced hk, toColor_of_misplaced hh, sectorPart_add_turns, ediv_add_turns,
    sectorColor_add_turns, eq_comm]
  exact sectorColor_succ_eq_iff (h / 60) (sectorPart_mem h).2 s v alpha

/-- Whole turns of a whole hue keep the colour exactly if it is grey, or if the hue is misplaced
before and after them or neither; and exactly the misplaced hues can lead out of the range of
channels, upwards where a channel of the angle rises and downwards where one falls. -/
theorem toColor_add_whole_turns (h k : Int) (s v alpha : Rat) :
    (Hsv.toColor ⟨((h + 360 * k : Int) : Rat), s, v, alpha⟩ =
        Hsv.toColor ⟨(h : Rat), s, v, alpha⟩ ↔
      (s = 0 ∨ v = 0) ∨ (Misplaced (h + 360 * k) ↔ Misplaced h)) ∧
    (InUnit s → InUnit v →
      ((Hsv.toColor ⟨(h : Rat), s, v, alpha⟩).InRange ↔ ¬ Misplaced h ∨
        if Even (h / 60) then v * (1 + s * (1 - sectorPart h)) ≤ 1
        else 0 ≤ v * (1 - s * (2 - sectorPart h)))) := by
  constructor
  · by_cases hh : Misplaced h <;> by_cases hk : Misplaced (h + 360 * k)
    · refine iff_of_true ?_ (Or.inr (iff_of_true hk hh))
      rw [toColor_of_misplaced hk, toColor_of_misplaced hh, sectorPart_add_turns, ediv_add_turns,
        add_right_comm, sectorColor_add_turns]
    · rw [toColor_eq_iff_of_misplaced hh hk]
      simp [hh, hk]
    · -- read backwards, the turns lead from the misplaced hue to the other one
      have hback : h + 360 * k + 360 * (-k) = h := by ring
      have hiff := toColor_eq_iff_of_misplaced (k := -k) hk (by rwa [hback]) s v alpha
      rw [hback] at hiff
      rw [eq_comm, hiff]
      simp [hh, hk]
    · refine iff_of_true ?_ (Or.inr (iff_of_false hk hh))
      rw [toColor_of_not_misplaced hk, toColor_of_not_misplaced hh, sectorPart_add_turns,
        ediv_add_turns, sectorColor_add_turns]
  · intro hs hv
    have hpart : InUnit (sectorPart h) := ⟨(sectorPart_mem h).1, (sectorPart_mem h).2.le⟩
    by_cases hh : Misplaced h
    · rw [toColor_of_misplaced hh, inRange_sectorColor_succ hpart hs hv]
      simp [hh]
    · rw [toColor_of_not_misplaced hh]
      exact iff_of_true (inRange_sectorColor hpart hs hv _ _) (Or.inl hh)

/-- At the hue of 270 degrees and one turn back, where it is misplaced. -/
theorem toColor_add_whole_turns_violet :
    InUnit 1 ∧ Misplaced (-90) ∧ ¬ Misplaced (-90 + 360 * 1) ∧
      (Hsv.toColor (⟨((-90 + 360 * 1 : Int) : Rat), 1, 1, 1⟩ : Hsv Rat) =
          Hsv.toColor ⟨((-90 : Int) : Rat), 1, 1, 1⟩ ↔
        ((1 : Rat) = 0 ∨ (1 : Rat) = 0) ∨ (Misplaced (-90 + 360 * 1) ↔ Misplaced (-90))) ∧
      ((Hsv.toColor (⟨((-90 : Int) : Rat), 1, 1, 1⟩ : Hsv Rat)).InRange ↔ ¬ Misplaced (-90) ∨
        if Even ((-90 : Int) / 60) then (1 : Rat) * (1 + 1 * (1 - sectorPart (-90))) ≤ 1
        else 0 ≤ (1 : Rat) * (1 - 1 * (2 - sectorPart (-90)))) := by
  have hback : Misplaced (-90) := ⟨by norm_num, by omega⟩
  have hhere : ¬ Misplaced (-90 + 360 * 1) := fun h => absurd h.1 (by norm_num)
  obtain ⟨hsame, hrange⟩ := toColor_add_whole_turns (-90) 1 1 1 1
  exact ⟨inUnit_one, hback, hhere, hsame, hrange inUnit_one inUnit_one⟩

/-- Violet, one turn back: red is as high as blue should be, and blue half as high again. -/
theorem toColor_violet_turned_back :
    Hsv.toColor (⟨((-90 + 360 * 1 : Int) : Rat), 1, 1, 1⟩ : Hsv Rat) = ⟨255 / 2, 0, 255, 1⟩ ∧
      Hsv.toColor (⟨((-90 : Int) : Rat), 1, 1, 1⟩ : Hsv Rat) = ⟨255, 0, 765 / 2, 1⟩ := by
  decide +kernel

end Hsv

end StyleFunctions
