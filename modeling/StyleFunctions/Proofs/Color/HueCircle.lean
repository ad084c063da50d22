import Mathlib.Tactic
import StyleFunctions.Color.Hsl
import StyleFunctions.Color.Hsv
import StyleFunctions.Proofs.Number.Exact

/-!
# The hue circle

Colours that are not grey have coordinates: a place on the hue circle (`HuePlace`: one of six
sectors, and how far into it) and the levels of their smallest and largest channel.
`HuePlace.color` is the colour with given coordinates.

* `channelLevel_rising`, `channelLevel_high`, `channelLevel_falling` and `channelLevel_low` are
  the four pieces of the channel function, `channelLevel_of_neg` and `channelLevel_of_one_le`
  its two wraps;
* `Hsl.toColor_degrees` — the colour of a hue is the colour at its place;
* `HuePlace.toHsl_color` — the place and the levels are read back off the colour;
* `Color.exists_place` — every colour that is not grey has a place.
-/

namespace StyleFunctions

/-! ## The channel function -/

namespace Hsl

variable {low high t : Rat}

theorem wrapTurn_exact (t : Rat) :
    wrapTurn t = if t < 0 then t + 1 else if 1 < t then t - 1 else t := rfl

theorem channelLevel_exact (low high t : Rat) :
    channelLevel low high t =
      if wrapTurn t * 6 < 1 then low + (high - low) * wrapTurn t * 6
      else if wrapTurn t * 2 < 1 then high
      else if wrapTurn t * 3 < 2 then low + (high - low) * (2 / 3 - wrapTurn t) * 6
      else low := rfl

theorem wrapTurn_of_mem (h₀ : 0 ≤ t) (h₁ : t ≤ 1) : wrapTurn t = t := by
  rw [wrapTurn_exact, if_neg (not_lt.2 h₀), if_neg (not_lt.2 h₁)]

/-- Over the first sixth of a turn the channel rises. -/
theorem channelLevel_rising (h₀ : 0 ≤ t) (h₁ : t < 1 / 6) :
    channelLevel low high t = low + (high - low) * (6 * t) := by
  rw [channelLevel_exact, wrapTurn_of_mem h₀ (by linarith), if_pos (by linarith)]
  ring

/-- For a third of a turn the channel is at the top. -/
theorem channelLevel_high (h₀ : 1 / 6 ≤ t) (h₁ : t < 1 / 2) : channelLevel low high t = high := by
  rw [channelLevel_exact, wrapTurn_of_mem (by linarith) (by linarith), if_neg (by linarith),
    if_pos (by linarith)]

/-- Over another sixth of a turn the channel falls. -/
theorem channelLevel_falling (h₀ : 1 / 2 ≤ t) (h₁ : t < 2 / 3) :
    channelLevel low high t = high - (high - low) * (6 * t - 3) := by
  rw [channelLevel_exact, wrapTurn_of_mem (by linarith) (by linarith), if_neg (by linarith),
    if_neg (by linarith), if_pos (by linarith)]
  ring

/-- For the last third of a turn the channel is at the bottom. -/
theorem channelLevel_low (h₀ : 2 / 3 ≤ t) (h₁ : t ≤ 1) : channelLevel low high t = low := by
  rw [channelLevel_exact, wrapTurn_of_mem (by linarith) (by linarith), if_neg (by linarith),
    if_neg (by linarith), if_neg (by linarith)]

/-- A point less than one turn back is brought onto the circle. -/
theorem channelLevel_of_neg (h₀ : -1 ≤ t) (h₁ : t < 0) :
    channelLevel low high t = channelLevel low high (t + 1) := by
  have hwrap : wrapTurn t = wrapTurn (t + 1) := by
    rw [wrapTurn_exact t, if_pos h₁, wrapTurn_of_mem (by linarith) (by linarith)]
  rw [channelLevel_exact, channelLevel_exact, hwrap]

/-- A point up to one turn ahead is brought onto the circle; where the turns meet, the channel is
at the bottom on both sides. -/
theorem channelLevel_of_one_le (h₀ : 1 ≤ t) (h₁ : t ≤ 2) :
    channelLevel low high t = channelLevel low high (t - 1) := by
  rcases h₀.eq_or_lt with rfl | hlt
  · rw [channelLevel_low (by norm_num) le_rfl, sub_self, channelLevel_rising le_rfl (by norm_num)]
    ring
  · have hwrap : wrapTurn t = wrapTurn (t - 1) := by
      rw [wrapTurn_exact t, if_neg (by linarith), if_pos hlt,
        wrapTurn_of_mem (by linarith) (by linarith)]
    rw [channelLevel_exact, channelLevel_exact, hwrap]

/-- Without a spread between the levels there is one level only. -/
theorem channelLevel_same (low t : Rat) : channelLevel low low t = low := by
  rw [channelLevel_exact]
  simp

/-! ## Levels -/

theorem highLevel_exact (s l : Rat) :
    highLevel s l = if l ≤ 1 / 2 then l * (s + 1) else l + s - l * s := by
  change (if l ≤ 0.5 then l * (s + 1) else l + s - l * s) = _
  norm_num

/-- The lowest level that a channel reaches: as far below the lightness as the highest is above
it. -/
def lowLevel (s l : Rat) : Rat := l * 2 - highLevel s l

/-- The colour at a point of the hue circle, a fraction of a turn. -/
def colorAt (turn low high alpha : Rat) : Color Rat :=
  ⟨channelLevel low high (turn + 1 / 3) * 255, channelLevel low high turn * 255,
    channelLevel low high (turn - 1 / 3) * 255, alpha⟩

/-- A hue enters its colour by its remainder only. -/
theorem toColor_exact (c : Hsl Rat) :
    c.toColor = colorAt (Scalar.remainder c.hue 360 / 360) (lowLevel c.saturation c.lightness)
      (highLevel c.saturation c.lightness) c.alpha := rfl

end Hsl

/-! ## Places -/

/-- A place on the hue circle: a sector, and the part of it that lies before the place. -/
structure HuePlace where
  sector : Nat
  part : Rat
  sector_lt : sector < 6
  part_nonneg : 0 ≤ part
  part_lt_one : part < 1

namespace HuePlace

/-- The hue at a place. -/
def degrees (p : HuePlace) : Rat := 60 * (p.sector + p.part)

theorem degrees_nonneg (p : HuePlace) : 0 ≤ p.degrees := by
  have hsector : (0 : Rat) ≤ p.sector := Nat.cast_nonneg _
  have hpart := p.part_nonneg
  rw [degrees]
  linarith

theorem degrees_lt (p : HuePlace) : p.degrees < 360 := by
  have hsector : (p.sector : Rat) ≤ 5 := by exact_mod_cast Nat.le_of_lt_succ p.sector_lt
  have hpart := p.part_lt_one
  rw [degrees]
  linarith

/-- Every hue of the first turn has its place. -/
theorem exists_degrees {h : Rat} (h₀ : 0 ≤ h) (h₁ : h < 360) : ∃ p : HuePlace, p.degrees = h := by
  have hlow : (0 : Rat) ≤ h / 60 := by linarith
  have hfloor : ⌊h / 60⌋₊ < 6 := (Nat.floor_lt hlow).2 (by push_cast; linarith)
  have hle := Nat.floor_le hlow
  have hlt := Nat.lt_floor_add_one (h / 60)
  refine ⟨⟨⌊h / 60⌋₊, h / 60 - ⌊h / 60⌋₊, hfloor, by linarith, by linarith⟩, ?_⟩
  rw [degrees]
  ring

/-- The colour at a place, between the levels `low` and `high`. -/
def color (p : HuePlace) (low high alpha : Rat) : Color Rat :=
  let spread := high - low
  let (red, green, blue) :=
    Hsv.sectorLevels p.sector high low (high - spread * p.part) (low + spread * p.part)
  ⟨red * 255, green * 255, blue * 255, alpha⟩

end HuePlace

open Hsl in
/-- Around the circle, the channel function at thirds of a turn gives the colours at places. -/
theorem Hsl.colorAt_degrees (p : HuePlace) (low high alpha : Rat) :
    colorAt (p.degrees / 360) low high alpha = p.color low high alpha := by
  obtain ⟨sector, part, hsector, h₀, h₁⟩ := p
  have hturn : 60 * (sector + part) / 360 = (sector : Rat) / 6 + part / 6 := by ring
  rw [HuePlace.degrees, hturn, colorAt, HuePlace.color]
  interval_cases sector
  · rw [channelLevel_high (by linarith) (by linarith),
      channelLevel_rising (by linarith) (by linarith),
      channelLevel_of_neg (by linarith) (by linarith),
      channelLevel_low (by linarith) (by linarith)]
    simp only [Hsv.sectorLevels, Nat.cast_zero]
    ring_nf
  · rw [channelLevel_falling (by linarith) (by linarith),
      channelLevel_high (by linarith) (by linarith),
      channelLevel_of_neg (by linarith) (by linarith),
      channelLevel_low (by linarith) (by linarith)]
    simp only [Hsv.sectorLevels, Nat.cast_one]
    ring_nf
  · rw [channelLevel_low (by linarith) (by linarith),
      channelLevel_high (by linarith) (by linarith),
      channelLevel_rising (by linarith) (by linarith)]
    simp only [Hsv.sectorLevels, Nat.cast_ofNat]
    ring_nf
  · rw [channelLevel_low (by linarith) (by linarith),
      channelLevel_falling (by linarith) (by linarith),
      channelLevel_high (by linarith) (by linarith)]
    simp only [Hsv.sectorLevels, Nat.cast_ofNat]
    ring_nf
  · -- red passes the point where the turns meet
    rw [channelLevel_of_one_le (by linarith) (by linarith),
      channelLevel_rising (by linarith) (by linarith),
      channelLevel_low (by linarith) (by linarith),
      channelLevel_high (by linarith) (by linarith)]
    simp only [Hsv.sectorLevels, Nat.cast_ofNat]
    ring_nf
  · rw [channelLevel_of_one_le (by linarith) (by linarith),
      channelLevel_high (by linarith) (by linarith),
      channelLevel_low (by linarith) (by linarith),
      channelLevel_falling (by linarith) (by linarith)]
    simp only [Hsv.sectorLevels, Nat.cast_ofNat]
    ring_nf

/-- A hue of any number of turns leads to the place of its remainder. -/
theorem Hsl.toColor_of_place {hue : Rat} {p : HuePlace} (h : Scalar.remainder hue 360 = p.degrees)
    (s l alpha : Rat) :
    Hsl.toColor ⟨hue, s, l, alpha⟩ = p.color (lowLevel s l) (highLevel s l) alpha := by
  rw [toColor_exact, h, colorAt_degrees]

/-- The colour of a hue is the colour at its place. -/
theorem Hsl.toColor_degrees (p : HuePlace) (s l alpha : Rat) :
    Hsl.toColor ⟨p.degrees, s, l, alpha⟩ = p.color (lowLevel s l) (highLevel s l) alpha := by
  have hdegrees : |p.degrees| < (360 : Nat) := by
    rw [abs_of_nonneg p.degrees_nonneg]
    exact_mod_cast p.degrees_lt
  exact toColor_of_place (Scalar.remainder_eq_self hdegrees) s l alpha

/-! ## The way back -/

namespace Color

/-- The largest channel. -/
def highest (c : Color Rat) : Rat := c.red ⊔ c.green ⊔ c.blue

/-- The smallest channel. -/
def lowest (c : Color Rat) : Rat := c.red ⊓ c.green ⊓ c.blue

theorem largest_exact (r g b : Rat) : largest r g b = r ⊔ g ⊔ b := by simp [largest]

theorem smallest_exact (r g b : Rat) : smallest r g b = r ⊓ g ⊓ b := by simp [smallest]

theorem hslSaturation_exact (high low l : Rat) :
    hslSaturation high low l =
      if 1 / 2 < l then (high - low) / (2 - high - low) else (high - low) / (high + low) := by
  change (if 0.5 < l then (high - low) / (2 - high - low) else (high - low) / (high + low)) = _
  norm_num

theorem hueSixths_exact (r g b high spread : Rat) :
    hueSixths r g b high spread =
      if high = r then (g - b) / spread + (if g < b then 6 else 0)
      else if high = g then (b - r) / spread + 2
      else (r - g) / spread + 4 := by
  change (if (high == r) = true then (g - b) / spread + (if g < b then 6 else 0)
      else if (high == g) = true then (b - r) / spread + 2 else (r - g) / spread + 4) = _
  simp only [beq_iff_eq]

/-- The levels of a colour are a 255th of its channels. -/
theorem toHsl_exact (c : Color Rat) :
    c.toHsl =
      let high := c.highest / 255
      let low := c.lowest / 255
      if high = low then ⟨0, 0, (high + low) / 2, c.alpha⟩
      else
        ⟨hueSixths (c.red / 255) (c.green / 255) (c.blue / 255) high (high - low) / 6 * 360,
          hslSaturation high low ((high + low) / 2), (high + low) / 2, c.alpha⟩ := by
  have hhigh : largest (c.red / 255) (c.green / 255) (c.blue / 255) = c.highest / 255 := by
    rw [largest_exact, highest, max_div_div_right (by norm_num), max_div_div_right (by norm_num)]
  have hlow : smallest (c.red / 255) (c.green / 255) (c.blue / 255) = c.lowest / 255 := by
    rw [smallest_exact, lowest, min_div_div_right (by norm_num), min_div_div_right (by norm_num)]
  have hdef : c.toHsl =
      let high := largest (c.red / 255) (c.green / 255) (c.blue / 255)
      let low := smallest (c.red / 255) (c.green / 255) (c.blue / 255)
      if (high == low) = true then ⟨0, 0, (high + low) / 2, c.alpha⟩
      else
        ⟨hueSixths (c.red / 255) (c.green / 255) (c.blue / 255) high (high - low) / 6 * 360,
          hslSaturation high low ((high + low) / 2), (high + low) / 2, c.alpha⟩ := rfl
  rw [hdef, hhigh, hlow]
  simp only [beq_iff_eq]

/-- A grey has its level as lightness, and neither hue nor saturation. -/
theorem toHsl_of_grey {c : Color Rat} (h : c.highest = c.lowest) :
    c.toHsl = ⟨0, 0, c.highest / 255, c.alpha⟩ := by
  rw [toHsl_exact, ← h]
  simp

end Color

namespace HuePlace

variable {low high : Rat}

/-- Levels that are a 255th of others give those as channels. -/
theorem color_div (p : HuePlace) (low high alpha : Rat) :
    p.color (low / 255) (high / 255) alpha =
      let (red, green, blue) := Hsv.sectorLevels p.sector high low
        (high - (high - low) * p.part) (low + (high - low) * p.part)
      ⟨red, green, blue, alpha⟩ := by
  obtain ⟨sector, part, hsector, h₀, h₁⟩ := p
  interval_cases sector <;>
    simp only [color, Hsv.sectorLevels, Nat.cast_ofNat, Nat.cast_zero, Nat.cast_one] <;>
    ring_nf

/-- The channel that moves within a sector stays between the levels. -/
theorem spread_mul_part_mem (p : HuePlace) (h : low ≤ high) :
    0 ≤ (high - low) * p.part ∧ (high - low) * p.part ≤ high - low := by
  have hspread : 0 ≤ high - low := sub_nonneg.2 h
  exact ⟨mul_nonneg hspread p.part_nonneg, mul_le_of_le_one_right hspread p.part_lt_one.le⟩

theorem highest_color (p : HuePlace) (h : low ≤ high) (alpha : Rat) :
    (p.color low high alpha).highest = high * 255 := by
  obtain ⟨hnonneg, hle⟩ := p.spread_mul_part_mem h
  obtain ⟨sector, part, hsector, h₀, h₁⟩ := p
  simp only at hnonneg hle
  interval_cases sector <;>
    simp only [Color.highest, HuePlace.color, Hsv.sectorLevels, Nat.cast_ofNat, Nat.cast_zero,
      Nat.cast_one] <;>
    grind

theorem lowest_color (p : HuePlace) (h : low ≤ high) (alpha : Rat) :
    (p.color low high alpha).lowest = low * 255 := by
  obtain ⟨hnonneg, hle⟩ := p.spread_mul_part_mem h
  obtain ⟨sector, part, hsector, h₀, h₁⟩ := p
  simp only at hnonneg hle
  interval_cases sector <;>
    simp only [Color.lowest, HuePlace.color, Hsv.sectorLevels, Nat.cast_ofNat, Nat.cast_zero,
      Nat.cast_one] <;>
    grind

/-- The sector and the part add up to the hue in sixths of a turn. -/
theorem hueSixths_color (p : HuePlace) (h : low < high) (alpha : Rat) :
    Color.hueSixths ((p.color low high alpha).red / 255) ((p.color low high alpha).green / 255)
      ((p.color low high alpha).blue / 255) high (high - low) = p.sector + p.part := by
  have hspread : high - low ≠ 0 := (sub_pos.2 h).ne'
  obtain ⟨hnonneg, -⟩ := p.spread_mul_part_mem h.le
  obtain ⟨sector, part, hsector, h₀, h₁⟩ := p
  simp only at hnonneg
  have hrise : low + (high - low) * part < high := by nlinarith
  have hfall : low < high - (high - low) * part := by linarith
  have hmoved (hpart : part ≠ 0) : high - (high - low) * part < high :=
    sub_lt_self _ (mul_pos (sub_pos.2 h) (h₀.lt_of_ne' hpart))
  rw [Color.hueSixths_exact]
  interval_cases sector <;>
    simp only [HuePlace.color, Hsv.sectorLevels, Nat.cast_ofNat, Nat.cast_zero, Nat.cast_one,
      mul_div_cancel_right₀ _ (show (255 : Rat) ≠ 0 by norm_num)]
  · rw [if_pos trivial, if_neg (by linarith)]
    field_simp
    ring
  · rcases eq_or_ne part 0 with rfl | hpart
    · -- red and green tie, and red comes first
      rw [if_pos (by ring), if_neg (by linarith)]
      field_simp
    · rw [if_neg (hmoved hpart).ne', if_pos trivial]
      field_simp
      ring
  · rw [if_neg h.ne', if_pos trivial]
    field_simp
    ring
  · rcases eq_or_ne part 0 with rfl | hpart
    · -- green and blue tie, and green comes first
      rw [if_neg h.ne', if_pos (by ring)]
      field_simp
      ring
    · rw [if_neg h.ne', if_neg (hmoved hpart).ne']
      field_simp
      ring
  · rw [if_neg hrise.ne', if_neg h.ne']
    field_simp
    ring
  · rw [if_pos trivial, if_pos hfall]
    field_simp
    ring

/-- Place and levels are read back off the colour. -/
theorem toHsl_color (p : HuePlace) (h : low < high) (alpha : Rat) :
    (p.color low high alpha).toHsl =
      ⟨p.degrees, Color.hslSaturation high low ((high + low) / 2), (high + low) / 2, alpha⟩ := by
  have hhigh : (p.color low high alpha).highest / 255 = high := by
    rw [p.highest_color h.le]
    ring
  have hlow : (p.color low high alpha).lowest / 255 = low := by
    rw [p.lowest_color h.le]
    ring
  rw [Color.toHsl_exact, hhigh, hlow]
  simp only [if_neg h.ne', p.hueSixths_color h]
  congr 1
  rw [degrees]
  ring

end HuePlace

namespace Color

/-- A level between two others is a part of the way up from the lower one. -/
theorem exists_part_up {low mid high : Rat} (h₀ : low ≤ mid) (h₁ : mid < high) :
    ∃ part : Rat, 0 ≤ part ∧ part < 1 ∧ mid = low + (high - low) * part := by
  have hspread : 0 < high - low := by linarith
  refine ⟨(mid - low) / (high - low), div_nonneg (by linarith) hspread.le,
    (div_lt_one hspread).2 (by linarith), ?_⟩
  rw [mul_div_cancel₀ _ hspread.ne']
  ring

/-- A level between two others is a part of the way down from the higher one. -/
theorem exists_part_down {low mid high : Rat} (h₀ : low < mid) (h₁ : mid ≤ high) :
    ∃ part : Rat, 0 ≤ part ∧ part < 1 ∧ mid = high - (high - low) * part := by
  have hlow : low ≤ low + high - mid := by linarith
  have hhigh : low + high - mid < high := by linarith
  obtain ⟨part, hnonneg, hlt, hpart⟩ := exists_part_up hlow hhigh
  exact ⟨part, hnonneg, hlt, by linarith⟩

/-- The channels of a colour are those of a sector: one at the top, one at the bottom, and one
in between, which rises in even sectors and falls in odd ones. -/
def LiesIn (c : Color Rat) (low high : Rat) : Nat → Prop
  | 0 => c.red = high ∧ c.blue = low ∧ low ≤ c.green ∧ c.green < high
  | 1 => c.green = high ∧ c.blue = low ∧ low < c.red ∧ c.red ≤ high
  | 2 => c.green = high ∧ c.red = low ∧ low ≤ c.blue ∧ c.blue < high
  | 3 => c.blue = high ∧ c.red = low ∧ low < c.green ∧ c.green ≤ high
  | 4 => c.blue = high ∧ c.green = low ∧ low ≤ c.red ∧ c.red < high
  | _ => c.red = high ∧ c.green = low ∧ low < c.blue ∧ c.blue ≤ high

/-- A colour whose channels are those of a sector has a place in it. -/
theorem LiesIn.exists_place {c : Color Rat} {low high : Rat} {sector : Nat}
    (hc : c.LiesIn low high sector) (hsector : sector < 6) :
    ∃ p : HuePlace, c = p.color (low / 255) (high / 255) c.alpha := by
  obtain ⟨red, green, blue, alpha⟩ := c
  simp only [HuePlace.color_div]
  interval_cases sector <;> obtain ⟨rfl, rfl, h₀, h₁⟩ := hc
  · obtain ⟨part, hnonneg, hlt, hpart⟩ := exists_part_up h₀ h₁
    exact ⟨⟨0, part, hsector, hnonneg, hlt⟩, congrArg (Color.mk red · blue alpha) hpart⟩
  · obtain ⟨part, hnonneg, hlt, hpart⟩ := exists_part_down h₀ h₁
    exact ⟨⟨1, part, hsector, hnonneg, hlt⟩, congrArg (Color.mk · green blue alpha) hpart⟩
  · obtain ⟨part, hnonneg, hlt, hpart⟩ := exists_part_up h₀ h₁
    exact ⟨⟨2, part, hsector, hnonneg, hlt⟩, congrArg (Color.mk red green · alpha) hpart⟩
  · obtain ⟨part, hnonneg, hlt, hpart⟩ := exists_part_down h₀ h₁
    exact ⟨⟨3, part, hsector, hnonneg, hlt⟩, congrArg (Color.mk red · blue alpha) hpart⟩
  · obtain ⟨part, hnonneg, hlt, hpart⟩ := exists_part_up h₀ h₁
    exact ⟨⟨4, part, hsector, hnonneg, hlt⟩, congrArg (Color.mk · green blue alpha) hpart⟩
  · obtain ⟨part, hnonneg, hlt, hpart⟩ := exists_part_down h₀ h₁
    exact ⟨⟨5, part, hsector, hnonneg, hlt⟩, congrArg (Color.mk red green · alpha) hpart⟩

theorem le_highest (c : Color Rat) :
    c.red ≤ c.highest ∧ c.green ≤ c.highest ∧ c.blue ≤ c.highest := by
  simp [highest]

theorem lowest_le (c : Color Rat) :
    c.lowest ≤ c.red ∧ c.lowest ≤ c.green ∧ c.lowest ≤ c.blue := by
  simp [lowest]

theorem highest_mem (c : Color Rat) :
    c.red = c.highest ∨ c.green = c.highest ∨ c.blue = c.highest := by
  rw [highest]
  grind

theorem lowest_mem (c : Color Rat) :
    c.red = c.lowest ∨ c.green = c.lowest ∨ c.blue = c.lowest := by
  rw [lowest]
  grind

/-- Every colour that is not grey has a place on the hue circle. -/
theorem exists_place {c : Color Rat} (h : c.lowest < c.highest) :
    ∃ p : HuePlace, c = p.color (c.lowest / 255) (c.highest / 255) c.alpha := by
  obtain ⟨hred, hgreen, hblue⟩ := c.le_highest
  obtain ⟨hred', hgreen', hblue'⟩ := c.lowest_le
  have hin (sector : Nat) (hsector : sector < 6) (hc : c.LiesIn c.lowest c.highest sector) :=
    hc.exists_place hsector
  -- where the third channel ties with one of the others, the next sector begins
  rcases c.highest_mem with hr | hg | hb <;> rcases c.lowest_mem with hr' | hg' | hb'
  · linarith
  · rcases hblue'.eq_or_lt with htie | hlt
    · exact hin 0 (by norm_num) ⟨hr, htie.symm, hgreen', by linarith⟩
    · exact hin 5 (by norm_num) ⟨hr, hg', hlt, hblue⟩
  · rcases hgreen.eq_or_lt with htie | hlt
    · exact hin 1 (by norm_num) ⟨htie, hb', by linarith, hred⟩
    · exact hin 0 (by norm_num) ⟨hr, hb', hgreen', hlt⟩
  · rcases hblue.eq_or_lt with htie | hlt
    · exact hin 3 (by norm_num) ⟨htie, hr', by linarith, hgreen⟩
    · exact hin 2 (by norm_num) ⟨hg, hr', hblue', hlt⟩
  · linarith
  · rcases hred'.eq_or_lt with htie | hlt
    · exact hin 2 (by norm_num) ⟨hg, htie.symm, hblue', by linarith⟩
    · exact hin 1 (by norm_num) ⟨hg, hb', hlt, hred⟩
  · rcases hgreen'.eq_or_lt with htie | hlt
    · exact hin 4 (by norm_num) ⟨hb, htie.symm, hred', by linarith⟩
    · exact hin 3 (by norm_num) ⟨hb, hr', hlt, hgreen⟩
  · rcases hred.eq_or_lt with htie | hlt
    · exact hin 5 (by norm_num) ⟨htie, hg', by linarith, hblue⟩
    · exact hin 4 (by norm_num) ⟨hb, hg', hred', hlt⟩
  · linarith

end Color

end StyleFunctions
