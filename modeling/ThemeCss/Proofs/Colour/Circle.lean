import Mathlib.Tactic.FieldSimp
import ThemeCss.Proofs.Colour.Exact

/-!
# The circle of colours

On the way around the circle one channel stands at the top, one at the bottom, and the third goes
from one to the other, in six sectors. So a colour is its greatest and its least channel together
with its place on the circle, and each of the three is found again in the channels: this is why the
two colour models describe the same colours and each conversion undoes the other.
-/
namespace ThemeCss.Colour

open Scalar

variable [Powers]

/-! ### Ramps -/

section ramp

variable {bottom top place : Rat}

theorem ramp_add_one (bottom top turn : Rat) :
    ramp bottom top (turn + 1) = ramp bottom top turn := by
  have same : modulo (turn + 1) (1.0 : Rat) = modulo turn 1.0 := by
    norm_num [modulo_one]
  unfold ramp
  rw [same]

theorem ramp_of_mem (start : 0 ≤ place) (below : place < 1) :
    ramp bottom top place =
      if place < 1 / 6 then bottom + (top - bottom) * place * 6
      else if place < 1 / 2 then top
      else if place < 2 / 3 then bottom + (top - bottom) * (2 / 3 - place) * 6
      else bottom := by
  unfold ramp
  norm_num [modulo_of_mem start below]

theorem ramp_rising (start : 0 ≤ place) (below : place < 1 / 6) :
    ramp bottom top place = bottom + (top - bottom) * (6 * place) := by
  rw [ramp_of_mem start (by linarith), if_pos below]
  ring

theorem ramp_top (start : 1 / 6 ≤ place) (below : place < 1 / 2) :
    ramp bottom top place = top := by
  rw [ramp_of_mem (by linarith) (by linarith), if_neg (by linarith), if_pos below]

theorem ramp_falling (start : 1 / 2 ≤ place) (below : place < 2 / 3) :
    ramp bottom top place = bottom + (top - bottom) * (4 - 6 * place) := by
  rw [ramp_of_mem (by linarith) (by linarith), if_neg (by linarith), if_neg (by linarith),
    if_pos below]
  ring

theorem ramp_bottom (start : 2 / 3 ≤ place) (below : place < 1) :
    ramp bottom top place = bottom := by
  rw [ramp_of_mem (by linarith) below, if_neg (by linarith), if_neg (by linarith),
    if_neg (by linarith)]

end ramp

/-- The red channel is ahead of the place and may have passed the start. -/
theorem ramp_ahead (bottom top turn : Rat) :
    ramp bottom top (turn + 1 / 3) = ramp bottom top (turn - 2 / 3) := by
  rw [← ramp_add_one bottom top (turn - 2 / 3)]
  ring_nf

/-- The blue channel is behind the place and may not have passed the start. -/
theorem ramp_behind (bottom top turn : Rat) :
    ramp bottom top (turn - 1 / 3) = ramp bottom top (turn + 2 / 3) := by
  rw [← ramp_add_one bottom top (turn - 1 / 3)]
  ring_nf

/-! ### Sectors -/

/-- The colour at a place on the circle, between the extremes. -/
def wheel (bottom top turn : Rat) : Rgb Rat :=
  ⟨ramp bottom top (turn + 1 / 3), ramp bottom top turn, ramp bottom top (turn - 1 / 3)⟩

/-- Between two corners of the circle one channel is on its way, the given part of it above the
bottom. -/
inductive Sector (bottom top part : Rat) : Rat → Rgb Rat → Prop where
  | redToYellow : Sector bottom top part (part / 6) ⟨top, bottom + (top - bottom) * part, bottom⟩
  | yellowToGreen :
      Sector bottom top part ((2 - part) / 6) ⟨bottom + (top - bottom) * part, top, bottom⟩
  | greenToCyan :
      Sector bottom top part ((2 + part) / 6) ⟨bottom, top, bottom + (top - bottom) * part⟩
  | cyanToBlue :
      Sector bottom top part ((4 - part) / 6) ⟨bottom, bottom + (top - bottom) * part, top⟩
  | blueToMagenta :
      Sector bottom top part ((4 + part) / 6) ⟨bottom + (top - bottom) * part, bottom, top⟩
  | magentaToRed :
      Sector bottom top part ((6 - part) / 6) ⟨top, bottom, bottom + (top - bottom) * part⟩

theorem exists_sector (bottom top : Rat) {turn : Rat} (start : 0 ≤ turn) (below : turn < 1) :
    ∃ part, 0 ≤ part ∧ part ≤ 1 ∧ Sector bottom top part turn (wheel bottom top turn) := by
  unfold wheel
  -- In each sixth of the turn one channel is at the top, one at the bottom and one on its way.
  by_cases first : turn < 1 / 6
  · refine ⟨6 * turn, by linarith, by linarith, ?_⟩
    rw [ramp_top (by linarith) (by linarith), ramp_rising start first, ramp_behind,
      ramp_bottom (by linarith) (by linarith)]
    convert Sector.redToYellow using 1
    ring
  by_cases second : turn < 1 / 3
  · refine ⟨2 - 6 * turn, by linarith, by linarith, ?_⟩
    rw [ramp_falling (by linarith) (by linarith), ramp_top (by linarith) (by linarith), ramp_behind,
      ramp_bottom (by linarith) (by linarith)]
    convert Sector.yellowToGreen using 1
    · ring
    · ring_nf
  by_cases third : turn < 1 / 2
  · refine ⟨6 * turn - 2, by linarith, by linarith, ?_⟩
    rw [ramp_bottom (by linarith) (by linarith), ramp_top (by linarith) (by linarith),
      ramp_rising (by linarith) (by linarith)]
    convert Sector.greenToCyan using 1
    · ring
    · ring_nf
  by_cases fourth : turn < 2 / 3
  · refine ⟨4 - 6 * turn, by linarith, by linarith, ?_⟩
    rw [ramp_bottom (by linarith) (by linarith), ramp_falling (by linarith) (by linarith),
      ramp_top (by linarith) (by linarith)]
    convert Sector.cyanToBlue using 1
    ring
  by_cases fifth : turn < 5 / 6
  · refine ⟨6 * turn - 4, by linarith, by linarith, ?_⟩
    rw [ramp_ahead, ramp_rising (by linarith) (by linarith),
      ramp_bottom (by linarith) (by linarith), ramp_top (by linarith) (by linarith)]
    convert Sector.blueToMagenta using 1
    · ring
    · ring_nf
  · refine ⟨6 - 6 * turn, by linarith, by linarith, ?_⟩
    rw [ramp_ahead, ramp_top (by linarith) (by linarith), ramp_bottom (by linarith) (by linarith),
      ramp_falling (by linarith) (by linarith)]
    convert Sector.magentaToRed using 1
    · ring
    · ring_nf

/-- The greatest channel. -/
def peak (rgb : Rgb Rat) : Rat := max (max rgb.red rgb.green) rgb.blue

/-- The least channel. -/
def trough (rgb : Rgb Rat) : Rat := min (min rgb.red rgb.green) rgb.blue

namespace Sector

variable {bottom top part turn : Rat} {rgb : Rgb Rat}

omit [Powers] in
theorem between (order : bottom ≤ top) (start : 0 ≤ part) (whole : part ≤ 1) :
    bottom ≤ bottom + (top - bottom) * part ∧ bottom + (top - bottom) * part ≤ top := by
  constructor <;> nlinarith

omit [Powers] in
theorem peak_eq (sector : Sector bottom top part turn rgb) (order : bottom ≤ top)
    (start : 0 ≤ part) (whole : part ≤ 1) : peak rgb = top := by
  obtain ⟨low, high⟩ := between order start whole
  cases sector <;> simp [peak, order, low, high]

omit [Powers] in
theorem trough_eq (sector : Sector bottom top part turn rgb) (order : bottom ≤ top)
    (start : 0 ≤ part) (whole : part ≤ 1) : trough rgb = bottom := by
  obtain ⟨low, high⟩ := between order start whole
  cases sector <;> simp [trough, order, low, high]

end Sector

theorem hueOf_eq (rgb : Rgb Rat) (top range : Rat) :
    hueOf rgb top range = Int.fract
      ((if rgb.red = top then (top - rgb.blue) / range - (top - rgb.green) / range
        else if rgb.green = top then 2 + (top - rgb.red) / range - (top - rgb.blue) / range
        else 4 + (top - rgb.green) / range - (top - rgb.red) / range) / 6) := by
  unfold hueOf
  norm_num [modulo_one]

theorem hueOf_mem (rgb : Rgb Rat) (top range : Rat) :
    0 ≤ hueOf rgb top range ∧ hueOf rgb top range < 1 := by
  rw [hueOf_eq]
  exact ⟨Int.fract_nonneg _, Int.fract_lt_one _⟩

/-- The place on the circle is found again in the channels. -/
theorem Sector.hueOf_eq {bottom top part turn : Rat} {rgb : Rgb Rat}
    (sector : Sector bottom top part turn rgb) (order : bottom < top) (start : 0 ≤ turn)
    (below : turn < 1) : hueOf rgb top (top - bottom) = turn := by
  have range : top - bottom ≠ 0 := (sub_pos.mpr order).ne'
  have full : (top - bottom) / (top - bottom) = 1 := div_self range
  have rest : (top - (bottom + (top - bottom) * part)) / (top - bottom) = 1 - part := by
    field_simp
    ring
  -- The channel on its way ties with the top one exactly at a corner.
  have arrived : bottom + (top - bottom) * part = top ↔ part = 1 := by
    constructor
    · intro tie
      have scaled : (top - bottom) * part = (top - bottom) * 1 := by linarith
      exact mul_left_cancel₀ range scaled
    · rintro rfl
      ring
  have self : Int.fract turn = turn := Int.fract_eq_self.mpr ⟨start, below⟩
  rw [Colour.hueOf_eq]
  cases sector <;>
    simp only [arrived, rest, full, order.ne, sub_self, zero_div, if_true, if_false]
  case redToYellow =>
    convert self using 2
    ring
  case yellowToGreen =>
    convert self using 2
    split
    next corner => norm_num [corner]
    next => ring
  case greenToCyan =>
    convert self using 2
    ring
  case cyanToBlue =>
    convert self using 2
    split
    next corner => norm_num [corner]
    next => ring
  case blueToMagenta =>
    split
    next corner =>
      rw [← Int.fract_add_one]
      convert self using 2
      norm_num [corner]
    next =>
      convert self using 2
      ring
  case magentaToRed =>
    -- Behind blue the sum runs below zero and comes around.
    rw [← Int.fract_add_one]
    convert self using 2
    ring

/-! ### What the circle shows -/

section wheel

variable {bottom top turn : Rat} (start : 0 ≤ turn) (below : turn < 1)
include start below

theorem peak_wheel (order : bottom ≤ top) : peak (wheel bottom top turn) = top := by
  obtain ⟨part, partStart, partWhole, sector⟩ := exists_sector bottom top start below
  exact sector.peak_eq order partStart partWhole

theorem trough_wheel (order : bottom ≤ top) : trough (wheel bottom top turn) = bottom := by
  obtain ⟨part, partStart, partWhole, sector⟩ := exists_sector bottom top start below
  exact sector.trough_eq order partStart partWhole

theorem hueOf_wheel (order : bottom < top) :
    hueOf (wheel bottom top turn) top (top - bottom) = turn := by
  obtain ⟨part, _, _, sector⟩ := exists_sector bottom top start below
  exact sector.hueOf_eq order start below

end wheel

end ThemeCss.Colour
