import ThemeCss.Proofs.Colour.Model

/-!
# Each colour model gives back the other

From hue, saturation and lightness the way to the channels and back is known. The other way around,
the order of a colour's channels says in which sector of the circle it lies, and how far the channel
between the extremes is on its way. The ramps show the same channels there, also where two sectors
meet.
-/
namespace ThemeCss.Colour

open Scalar

/-! ### The sector of a colour -/

/-- How far a channel is on its way from the bottom to the top. -/
theorem exists_part {bottom middle top : Rat} (low : bottom ≤ middle) (high : middle ≤ top)
    (coloured : bottom < top) :
    ∃ part, 0 ≤ part ∧ part ≤ 1 ∧ middle = bottom + (top - bottom) * part := by
  have range : 0 < top - bottom := sub_pos.mpr coloured
  refine ⟨(middle - bottom) / (top - bottom), ?_, ?_, ?_⟩
  · exact div_nonneg (sub_nonneg.mpr low) range.le
  · rw [div_le_one range]
    linarith
  · rw [mul_div_cancel₀ _ range.ne']
    ring

/-- A colour that is not grey lies in a sector, before the circle comes around. -/
theorem exists_sector_of {rgb : Rgb Rat} (coloured : trough rgb < peak rgb) :
    ∃ part turn, 0 ≤ part ∧ part ≤ 1 ∧ 0 ≤ turn ∧ turn < 1 ∧
      Sector (trough rgb) (peak rgb) part turn rgb := by
  obtain ⟨red, green, blue⟩ := rgb
  rcases le_total green red with redGreen | greenRed
  · rcases le_total blue green with greenBlue | blueGreen
    · have bottom : trough ⟨red, green, blue⟩ = blue := by simp [trough, redGreen, greenBlue]
      have top : peak ⟨red, green, blue⟩ = red := by simp [peak, redGreen, greenBlue.trans redGreen]
      rw [bottom, top] at coloured ⊢
      obtain ⟨part, start, whole, same⟩ := exists_part greenBlue redGreen coloured
      refine ⟨part, part / 6, start, whole, by linarith, by linarith, ?_⟩
      rw [same]
      exact .redToYellow
    · have bottom : trough ⟨red, green, blue⟩ = green := by simp [trough, redGreen, blueGreen]
      rcases le_total blue red with redBlue | blueRed
      · have top : peak ⟨red, green, blue⟩ = red := by simp [peak, redGreen, redBlue]
        rw [bottom, top] at coloured ⊢
        obtain ⟨part, start, whole, same⟩ := exists_part blueGreen redBlue coloured
        -- At its end this sector would be a whole turn away, where the first one starts.
        rcases start.eq_or_lt with rfl | positive
        · refine ⟨0, 0 / 6, le_rfl, whole, by norm_num, by norm_num, ?_⟩
          have arrived : blue = green := by linarith
          rw [arrived]
          convert Sector.redToYellow using 2
          ring
        · refine ⟨part, (6 - part) / 6, start, whole, by linarith, by linarith, ?_⟩
          rw [same]
          exact .magentaToRed
      · have top : peak ⟨red, green, blue⟩ = blue := by simp [peak, redGreen, blueRed]
        rw [bottom, top] at coloured ⊢
        obtain ⟨part, start, whole, same⟩ := exists_part redGreen blueRed coloured
        refine ⟨part, (4 + part) / 6, start, whole, by linarith, by linarith, ?_⟩
        rw [same]
        exact .blueToMagenta
  · rcases le_total blue green with greenBlue | blueGreen
    · have top : peak ⟨red, green, blue⟩ = green := by simp [peak, greenRed, greenBlue]
      rcases le_total blue red with redBlue | blueRed
      · have bottom : trough ⟨red, green, blue⟩ = blue := by simp [trough, greenRed, redBlue]
        rw [bottom, top] at coloured ⊢
        obtain ⟨part, start, whole, same⟩ := exists_part redBlue greenRed coloured
        refine ⟨part, (2 - part) / 6, start, whole, by linarith, by linarith, ?_⟩
        rw [same]
        exact .yellowToGreen
      · have bottom : trough ⟨red, green, blue⟩ = red := by simp [trough, greenRed, blueRed]
        rw [bottom, top] at coloured ⊢
        obtain ⟨part, start, whole, same⟩ := exists_part blueRed greenBlue coloured
        refine ⟨part, (2 + part) / 6, start, whole, by linarith, by linarith, ?_⟩
        rw [same]
        exact .greenToCyan
    · have bottom : trough ⟨red, green, blue⟩ = red := by
        simp [trough, greenRed, greenRed.trans blueGreen]
      have top : peak ⟨red, green, blue⟩ = blue := by simp [peak, greenRed, blueGreen]
      rw [bottom, top] at coloured ⊢
      obtain ⟨part, start, whole, same⟩ := exists_part greenRed blueGreen coloured
      refine ⟨part, (4 - part) / 6, start, whole, by linarith, by linarith, ?_⟩
      rw [same]
      exact .cyanToBlue

variable [Powers]

/-! ### The ramps, with both ends -/

section ramp

variable {bottom top place : Rat}

theorem ramp_eq_rising (start : 0 ≤ place) (last : place ≤ 1 / 6) :
    ramp bottom top place = bottom + (top - bottom) * (6 * place) := by
  rcases last.lt_or_eq with below | rfl
  · exact ramp_rising start below
  · rw [ramp_top le_rfl (by norm_num)]
    ring

theorem ramp_eq_top (start : 1 / 6 ≤ place) (last : place ≤ 1 / 2) :
    ramp bottom top place = top := by
  rcases last.lt_or_eq with below | rfl
  · exact ramp_top start below
  · rw [ramp_falling le_rfl (by norm_num)]
    ring

theorem ramp_eq_falling (start : 1 / 2 ≤ place) (last : place ≤ 2 / 3) :
    ramp bottom top place = bottom + (top - bottom) * (4 - 6 * place) := by
  rcases last.lt_or_eq with below | rfl
  · exact ramp_falling start below
  · rw [ramp_bottom le_rfl (by norm_num)]
    ring

theorem ramp_eq_bottom (start : 2 / 3 ≤ place) (last : place ≤ 1) :
    ramp bottom top place = bottom := by
  rcases last.lt_or_eq with below | rfl
  · exact ramp_bottom start below
  · -- A whole turn is none.
    rw [← zero_add (1 : Rat), ramp_add_one, ramp_rising le_rfl (by norm_num)]
    ring

end ramp

/-- The circle shows the colours of a sector at their places. -/
theorem Sector.wheel_eq {bottom top part turn : Rat} {rgb : Rgb Rat}
    (sector : Sector bottom top part turn rgb) (start : 0 ≤ part) (whole : part ≤ 1) :
    wheel bottom top turn = rgb := by
  unfold wheel
  cases sector with
  | redToYellow =>
    rw [ramp_eq_top (by linarith) (by linarith), ramp_eq_rising (by linarith) (by linarith),
      ramp_behind, ramp_eq_bottom (by linarith) (by linarith)]
    congr 1
    ring
  | yellowToGreen =>
    rw [ramp_eq_falling (by linarith) (by linarith), ramp_eq_top (by linarith) (by linarith),
      ramp_behind, ramp_eq_bottom (by linarith) (by linarith)]
    congr 1
    ring
  | greenToCyan =>
    rw [ramp_eq_bottom (by linarith) (by linarith), ramp_eq_top (by linarith) (by linarith),
      ramp_eq_rising (by linarith) (by linarith)]
    congr 1
    ring
  | cyanToBlue =>
    rw [ramp_eq_bottom (by linarith) (by linarith), ramp_eq_falling (by linarith) (by linarith),
      ramp_eq_top (by linarith) (by linarith)]
    congr 1
    ring
  | blueToMagenta =>
    rw [ramp_ahead, ramp_eq_rising (by linarith) (by linarith),
      ramp_eq_bottom (by linarith) (by linarith), ramp_eq_top (by linarith) (by linarith)]
    congr 1
    ring
  | magentaToRed =>
    rw [ramp_ahead, ramp_eq_top (by linarith) (by linarith),
      ramp_eq_bottom (by linarith) (by linarith), ramp_eq_falling (by linarith) (by linarith)]
    congr 1
    ring

/-- The circle shows a colour at the place that its hue gives, between its own extremes. -/
theorem wheel_hueOf {rgb : Rgb Rat} (coloured : trough rgb < peak rgb) :
    wheel (trough rgb) (peak rgb) (hueOf rgb (peak rgb) (peak rgb - trough rgb)) = rgb := by
  obtain ⟨part, turn, partStart, partWhole, start, below, sector⟩ := exists_sector_of coloured
  rw [sector.hueOf_eq coloured start below]
  exact sector.wheel_eq partStart partWhole

/-! ### Both ways -/

omit [Powers] in
/-- Between extremes that are the same there is one channel only. -/
theorem eq_of_trough_eq_peak {rgb : Rgb Rat} (grey : trough rgb = peak rgb) :
    rgb = ⟨peak rgb, peak rgb, peak rgb⟩ := by
  obtain ⟨redLow, greenLow, blueLow⟩ := trough_le rgb
  obtain ⟨redHigh, greenHigh, blueHigh⟩ := le_peak rgb
  rw [grey] at redLow greenLow blueLow
  have red := le_antisymm redHigh redLow
  have green := le_antisymm greenHigh greenLow
  have blue := le_antisymm blueHigh blueLow
  exact congr (congr (congrArg Rgb.mk red) green) blue

/-- A colour in range is made again from its description. -/
theorem ofHsl_of_toHsl {rgb : Rgb Rat} (inRange : rgb.InRange) {hsl : Hsl Rat}
    (read : toHsl rgb = .ok hsl) : ofHsl hsl = rgb := by
  obtain ⟨shade, same, described, top, bottom⟩ := exists_toHsl inRange
  obtain rfl : shade = hsl := Except.ok.inj (same.symm.trans read)
  obtain ⟨unit, rfl⟩ := exists_scaled rgb
  rw [inRange_iff, peak_scaled, trough_scaled] at inRange
  rw [peak_scaled] at top
  rw [trough_scaled] at bottom
  have start : 0 ≤ trough unit := by linarith
  have whole : peak unit ≤ 1 := by linarith
  have highest : highest shade = peak unit := by linarith
  have lowest : lowest shade = trough unit := by linarith
  rw [ofHsl_eq, highest, lowest]
  congr 1
  rw [toHsl_scaled start whole, Except.ok.injEq] at read
  split at read
  next grey =>
    rw [grey, wheel, ramp_same, ramp_same, ramp_same]
    exact (eq_of_trough_eq_peak grey).symm
  next coloured =>
    have order : trough unit < peak unit :=
      lt_of_le_of_ne ((trough_le unit).1.trans (le_peak unit).1) coloured
    have turn : modulo shade.hue 360 / 360 = hueOf unit (peak unit) (peak unit - trough unit) := by
      rw [modulo_of_mem described.hue.1 described.hue.2, ← read]
      ring
    rw [turn]
    exact wheel_hueOf order

/-- Read exactly, the conversions undo each other. Every colour in range has a description in range,
from which it is made again; every description in range with some saturation, neither black nor
white, makes a colour in range, in which it is found again. -/
theorem models_inverse :
    (∀ rgb : Rgb Rat, rgb.InRange →
      ∃ hsl : Hsl Rat, toHsl rgb = .ok hsl ∧ hsl.InRange ∧ ofHsl hsl = rgb) ∧
    (∀ hsl : Hsl Rat, hsl.InRange → 0 < hsl.saturation → 0 < hsl.lightness →
      hsl.lightness < 100 → (ofHsl hsl).InRange ∧ toHsl (ofHsl hsl) = .ok hsl) := by
  constructor
  · intro rgb inRange
    obtain ⟨hsl, read, described, _⟩ := exists_toHsl inRange
    exact ⟨hsl, read, described, ofHsl_of_toHsl inRange read⟩
  · intro hsl inRange coloured dark light
    exact ⟨inRange_ofHsl inRange, toHsl_ofHsl inRange coloured dark light⟩

omit [Powers] in
/-- A tie of the least channels, where the circle comes around, and a hue just before it does. -/
theorem models_inverse_red :
    letI : Powers := ⟨fun _ _ => none⟩
    (⟨200, 50, 50⟩ : Rgb Rat).InRange ∧
      (∃ hsl : Hsl Rat, toHsl (⟨200, 50, 50⟩ : Rgb Rat) = .ok hsl ∧ hsl.InRange ∧
        ofHsl hsl = ⟨200, 50, 50⟩) ∧
      (⟨359, 100, 50⟩ : Hsl Rat).InRange ∧ (0 : Rat) < 100 ∧ (0 : Rat) < 50 ∧ (50 : Rat) < 100 ∧
      (ofHsl (⟨359, 100, 50⟩ : Hsl Rat)).InRange ∧
      toHsl (ofHsl (⟨359, 100, 50⟩ : Hsl Rat)) = .ok ⟨359, 100, 50⟩ := by
  let _ : Powers := ⟨fun _ _ => none⟩
  have red : (⟨200, 50, 50⟩ : Rgb Rat).InRange := ⟨by norm_num, by norm_num, by norm_num⟩
  have late : (⟨359, 100, 50⟩ : Hsl Rat).InRange := ⟨by norm_num, by norm_num, by norm_num⟩
  exact ⟨red, models_inverse.1 _ red, late, by norm_num, by norm_num, by norm_num,
    models_inverse.2 _ late (by norm_num) (by norm_num) (by norm_num)⟩

end ThemeCss.Colour
