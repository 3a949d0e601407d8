import ThemeCss.Proofs.Colour.Circle

/-!
# The colour models undo each other

The greatest and the least channel of a colour lie around its lightness, at a distance that is the
saturation's part of the room there is. So a colour in range has a hue, a saturation and a lightness
in their ranges, such a triple makes a colour in range, and what one conversion makes the other
turns back: all of it where there is a hue to find, and the lightness everywhere.
-/
namespace ThemeCss

/-- Every channel is within its bounds. -/
structure Rgb.InRange (rgb : Rgb Rat) : Prop where
  red : 0 ≤ rgb.red ∧ rgb.red ≤ 255
  green : 0 ≤ rgb.green ∧ rgb.green ≤ 255
  blue : 0 ≤ rgb.blue ∧ rgb.blue ≤ 255

/-- Hue, saturation and lightness are within their bounds. -/
structure Hsl.InRange (hsl : Hsl Rat) : Prop where
  hue : 0 ≤ hsl.hue ∧ hsl.hue < 360
  saturation : 0 ≤ hsl.saturation ∧ hsl.saturation ≤ 100
  lightness : 0 ≤ hsl.lightness ∧ hsl.lightness ≤ 100

namespace Colour

open Scalar

/-! ### Extremes -/

theorem trough_le (rgb : Rgb Rat) :
    trough rgb ≤ rgb.red ∧ trough rgb ≤ rgb.green ∧ trough rgb ≤ rgb.blue := by
  simp [trough]

theorem le_peak (rgb : Rgb Rat) :
    rgb.red ≤ peak rgb ∧ rgb.green ≤ peak rgb ∧ rgb.blue ≤ peak rgb := by
  simp [peak]

theorem inRange_iff {rgb : Rgb Rat} : rgb.InRange ↔ 0 ≤ trough rgb ∧ peak rgb ≤ 255 := by
  simp only [trough, peak, le_min_iff, max_le_iff]
  constructor
  · intro inRange
    exact ⟨⟨⟨inRange.red.1, inRange.green.1⟩, inRange.blue.1⟩,
      ⟨inRange.red.2, inRange.green.2⟩, inRange.blue.2⟩
  · rintro ⟨⟨⟨red, green⟩, blue⟩, ⟨redTop, greenTop⟩, blueTop⟩
    exact ⟨⟨red, redTop⟩, ⟨green, greenTop⟩, blue, blueTop⟩

/-- How far saturation can carry the extremes away from a lightness. -/
def room (lightness : Rat) : Rat := min lightness (1 - lightness)

/-- The greatest channel that lightness and saturation ask for, as a part of the whole. -/
def highest (hsl : Hsl Rat) : Rat :=
  hsl.lightness / 100 + hsl.saturation / 100 * room (hsl.lightness / 100)

/-- The least channel that lightness and saturation ask for, as a part of the whole. -/
def lowest (hsl : Hsl Rat) : Rat :=
  hsl.lightness / 100 - hsl.saturation / 100 * room (hsl.lightness / 100)

theorem room_bounds {hsl : Hsl Rat} (inRange : hsl.InRange) :
    0 ≤ hsl.saturation / 100 * room (hsl.lightness / 100) ∧
      hsl.saturation / 100 * room (hsl.lightness / 100) ≤ hsl.lightness / 100 ∧
      hsl.saturation / 100 * room (hsl.lightness / 100) ≤ 1 - hsl.lightness / 100 := by
  have part : 0 ≤ hsl.saturation / 100 := by linarith [inRange.saturation.1]
  have whole : hsl.saturation / 100 ≤ 1 := by linarith [inRange.saturation.2]
  have start : 0 ≤ room (hsl.lightness / 100) := by
    apply le_min
    · linarith [inRange.lightness.1]
    · linarith [inRange.lightness.2]
  have taken := mul_le_of_le_one_left start whole
  exact ⟨mul_nonneg part start, taken.trans (min_le_left ..), taken.trans (min_le_right ..)⟩

/-- A colour whose channels are given as parts of the whole. -/
def scaled (unit : Rgb Rat) : Rgb Rat := ⟨unit.red * 255, unit.green * 255, unit.blue * 255⟩

theorem peak_scaled (unit : Rgb Rat) : peak (scaled unit) = peak unit * 255 := by
  simp [peak, scaled, max_mul_of_nonneg]

theorem trough_scaled (unit : Rgb Rat) : trough (scaled unit) = trough unit * 255 := by
  simp [trough, scaled, min_mul_of_nonneg]

theorem exists_scaled (rgb : Rgb Rat) : ∃ unit, scaled unit = rgb := by
  refine ⟨⟨rgb.red / 255, rgb.green / 255, rgb.blue / 255⟩, ?_⟩
  simp [scaled]

variable [Powers]

/-! ### From channels -/

theorem channel_scaled {x : Rat} (start : 0 ≤ x) (whole : x ≤ 1) :
    channel (x * 255) / 255.0 = x := by
  have low : 0 ≤ x * 255 := by linarith
  have high : x * 255 ≤ 255 := by linarith
  unfold channel
  norm_num [clamp_eq, low, high]

/-- Half the sum of the extreme channels. -/
def centre (rgb : Rgb Rat) : Rat := (peak rgb + trough rgb) / 2

omit [Powers] in
theorem divisor_eq (sum : Rat) :
    (if sum / 2 ≤ 1 / 2 then sum else 2 - sum) = 2 * room (sum / 2) := by
  unfold room
  split
  next dark =>
    rw [min_eq_left (by linarith)]
    ring
  next light =>
    rw [min_eq_right (by linarith)]
    ring

omit [Powers] in
theorem room_centre_pos {unit : Rgb Rat} (start : 0 ≤ trough unit) (whole : peak unit ≤ 1)
    (coloured : trough unit < peak unit) : 0 < room (centre unit) := by
  unfold room centre
  apply lt_min <;> linarith

theorem toHsl_scaled {unit : Rgb Rat} (start : 0 ≤ trough unit) (whole : peak unit ≤ 1) :
    toHsl (scaled unit) = .ok
      (if trough unit = peak unit then ⟨0, 0, centre unit * 100⟩
        else ⟨hueOf unit (peak unit) (peak unit - trough unit) * 360,
          (peak unit - trough unit) / (2 * room (centre unit)) * 100, centre unit * 100⟩) := by
  obtain ⟨redLow, greenLow, blueLow⟩ := trough_le unit
  obtain ⟨redHigh, greenHigh, blueHigh⟩ := le_peak unit
  have red := channel_scaled (x := unit.red) (by linarith) (by linarith)
  have green := channel_scaled (x := unit.green) (by linarith) (by linarith)
  have blue := channel_scaled (x := unit.blue) (by linarith) (by linarith)
  unfold toHsl
  simp only [scaled, red, green, blue, greatest_eq, least_eq]
  rw [← peak, ← trough]
  by_cases grey : trough unit = peak unit
  · norm_num [grey, centre]
  · have coloured : trough unit < peak unit := lt_of_le_of_ne (by linarith) grey
    have positive := room_centre_pos start whole coloured
    simp only [grey, if_false]
    norm_num [grey, divisor_eq]
    rw [← centre, if_neg positive.ne']

/-- A colour in range has a description in range, and its extremes are those the description asks
for. -/
theorem exists_toHsl {rgb : Rgb Rat} (inRange : rgb.InRange) :
    ∃ hsl : Hsl Rat, toHsl rgb = .ok hsl ∧ hsl.InRange ∧
      peak rgb = highest hsl * 255 ∧ trough rgb = lowest hsl * 255 := by
  obtain ⟨unit, rfl⟩ := exists_scaled rgb
  rw [inRange_iff, peak_scaled, trough_scaled] at inRange
  have start : 0 ≤ trough unit := by linarith
  have whole : peak unit ≤ 1 := by linarith
  have order : trough unit ≤ peak unit := (trough_le unit).1.trans (le_peak unit).1
  refine ⟨_, toHsl_scaled start whole, ?_⟩
  rw [peak_scaled, trough_scaled]
  split
  next grey =>
    refine ⟨⟨by norm_num, by norm_num, ?_⟩, ?_, ?_⟩
    · simp only [centre]
      constructor <;> linarith
    · simp only [highest, centre, grey]
      ring
    · simp only [lowest, centre, grey]
      ring
  next coloured =>
    have positive := room_centre_pos start whole (lt_of_le_of_ne order coloured)
    -- The saturation is taken of the room that the lightness leaves: the two give the chroma back.
    have chroma : (peak unit - trough unit) / (2 * room (centre unit)) * 100 / 100
        * room (centre unit * 100 / 100) = (peak unit - trough unit) / 2 := by
      have same : centre unit * 100 / 100 = centre unit := by ring
      rw [same]
      field_simp
    have within : peak unit - trough unit ≤ 2 * room (centre unit) := by
      have both : (peak unit - trough unit) / 2 ≤ room (centre unit) := by
        unfold room centre
        apply le_min <;> linarith
      linarith
    obtain ⟨hueStart, hueBelow⟩ := hueOf_mem unit (peak unit) (peak unit - trough unit)
    refine ⟨⟨?_, ?_, ?_⟩, ?_, ?_⟩
    · constructor
      · simp only
        linarith
      · simp only
        linarith
    · constructor
      · exact mul_nonneg (div_nonneg (by linarith) (by linarith)) (by norm_num)
      · have part := (div_le_one (by linarith)).mpr within
        simp only
        linarith
    · simp only [centre]
      constructor <;> linarith
    · simp only [highest]
      rw [chroma, centre]
      ring
    · simp only [lowest]
      rw [chroma, centre]
      ring

/-! ### From a description -/

theorem ramp_same (x turn : Rat) : ramp x x turn = x := by
  simp [ramp]

theorem ofHsl_eq (hsl : Hsl Rat) :
    ofHsl hsl = scaled (wheel (lowest hsl) (highest hsl) (modulo hsl.hue 360 / 360)) := by
  have top : (if hsl.lightness / 100 ≤ 1 / 2 then hsl.lightness / 100 * (1 + hsl.saturation / 100)
      else hsl.lightness / 100 + hsl.saturation / 100
        - hsl.lightness / 100 * (hsl.saturation / 100)) = highest hsl := by
    unfold highest room
    split
    next dark =>
      rw [min_eq_left (by linarith)]
      ring
    next light =>
      rw [min_eq_right (by linarith)]
      ring
  have bottom : 2 * (hsl.lightness / 100) - highest hsl = lowest hsl := by
    unfold lowest highest
    ring
  unfold ofHsl
  by_cases grey : hsl.saturation = 0
  · norm_num [grey, scaled, wheel, lowest, highest, ramp_same]
  · norm_num [grey, top, bottom, scaled, wheel]

section description

variable {hsl : Hsl Rat} (inRange : hsl.InRange)
include inRange

theorem turn_mem : 0 ≤ modulo hsl.hue 360 / 360 ∧ modulo hsl.hue 360 / 360 < 1 := by
  obtain ⟨start, below⟩ := inRange.hue
  rw [modulo_of_mem start below]
  constructor <;> linarith

theorem extremes_ofHsl :
    peak (ofHsl hsl) = highest hsl * 255 ∧ trough (ofHsl hsl) = lowest hsl * 255 := by
  have order : lowest hsl ≤ highest hsl := by
    unfold lowest highest
    linarith [(room_bounds inRange).1]
  obtain ⟨start, below⟩ := turn_mem inRange
  rw [ofHsl_eq, peak_scaled, trough_scaled, peak_wheel start below order,
    trough_wheel start below order]
  exact ⟨rfl, rfl⟩

/-- A description in range makes a colour in range. -/
theorem inRange_ofHsl : (ofHsl hsl).InRange := by
  obtain ⟨top, bottom⟩ := extremes_ofHsl inRange
  obtain ⟨_, low, high⟩ := room_bounds inRange
  rw [inRange_iff, top, bottom]
  unfold lowest highest
  constructor <;> linarith

/-- Whatever the hue and the saturation, the lightness is found again. -/
theorem exists_toHsl_ofHsl :
    ∃ shade : Hsl Rat, toHsl (ofHsl hsl) = .ok shade ∧ shade.lightness = hsl.lightness := by
  obtain ⟨shade, read, _, top, bottom⟩ := exists_toHsl (inRange_ofHsl inRange)
  obtain ⟨askedTop, askedBottom⟩ := extremes_ofHsl inRange
  refine ⟨shade, read, ?_⟩
  -- Lightness is half the sum of the extremes.
  rw [top] at askedTop
  rw [bottom] at askedBottom
  unfold highest at askedTop
  unfold lowest at askedBottom
  linarith

/-- A description with some saturation, neither black nor white, is found again. -/
theorem toHsl_ofHsl (coloured : 0 < hsl.saturation) (dark : 0 < hsl.lightness)
    (light : hsl.lightness < 100) : toHsl (ofHsl hsl) = .ok hsl := by
  have positive : 0 < room (hsl.lightness / 100) := by
    unfold room
    apply lt_min <;> linarith
  have carried : 0 < hsl.saturation / 100 * room (hsl.lightness / 100) :=
    mul_pos (by linarith) positive
  obtain ⟨_, low, high⟩ := room_bounds inRange
  have order : lowest hsl < highest hsl := by
    unfold lowest highest
    linarith
  obtain ⟨start, below⟩ := turn_mem inRange
  have top := peak_wheel start below order.le
  have bottom := trough_wheel start below order.le
  have middle : centre (wheel (lowest hsl) (highest hsl) (modulo hsl.hue 360 / 360))
      = hsl.lightness / 100 := by
    rw [centre, top, bottom, highest, lowest]
    ring
  have chroma : (highest hsl - lowest hsl) / (2 * room (hsl.lightness / 100)) * 100
      = hsl.saturation := by
    unfold highest lowest
    field_simp
    ring
  have floor : 0 ≤ lowest hsl := by
    unfold lowest
    linarith
  have ceiling : highest hsl ≤ 1 := by
    unfold highest
    linarith
  rw [ofHsl_eq, toHsl_scaled (by rw [bottom]; exact floor) (by rw [top]; exact ceiling), top,
    bottom, middle, hueOf_wheel start below order, if_neg order.ne, chroma,
    modulo_of_mem inRange.hue.1 inRange.hue.2]
  congr 2 <;> ring

end description

end Colour
end ThemeCss
