import ThemeCss.Proofs.Colour.Model

/-!
# Retargeting

A colour scaled to a luminance has that luminance as long as no channel is cut at its bound. Where a
channel is cut, one channel takes the rest, so the luminance is the target or, if that channel is
full before, what the colour has with it full. A channel that is cut leaves green and another one to
show the luminance, which is enough for every target that is not too bright; beyond that there are
colours whose one free channel cannot hold the rest.
-/
namespace ThemeCss.Colour

open Scalar

variable [Powers]

/-! ### Luminance -/

theorem luminance_eq (rgb : Rgb Rat) :
    luminance rgb = (299 * rgb.red + 587 * rgb.green + 114 * rgb.blue) / 1000 := by
  unfold luminance
  norm_num

theorem luminance_mem (rgb : Rgb Rat) : trough rgb ≤ luminance rgb ∧ luminance rgb ≤ peak rgb := by
  obtain ⟨redLow, greenLow, blueLow⟩ := trough_le rgb
  obtain ⟨redHigh, greenHigh, blueHigh⟩ := le_peak rgb
  rw [luminance_eq]
  constructor <;> linarith

theorem luminance_grey (x : Rat) : luminance ⟨x, x, x⟩ = x := by
  rw [luminance_eq]
  ring

/-! ### Bounds -/

theorem channel_eq (x : Rat) : channel x = max 0 (min 255 x) := by
  unfold channel
  norm_num [clamp_eq]

theorem channel_of_nonneg {x : Rat} (start : 0 ≤ x) : channel x = min 255 x := by
  rw [channel_eq, max_eq_right (le_min (by norm_num) start)]

theorem channel_of_mem {x : Rat} (bounds : 0 ≤ x ∧ x ≤ 255) : channel x = x := by
  rw [channel_of_nonneg bounds.1, min_eq_right bounds.2]

theorem channel_mem (x : Rat) : 0 ≤ channel x ∧ channel x ≤ 255 := by
  rw [channel_eq]
  exact ⟨le_max_left .., max_le (by norm_num) (min_le_left ..)⟩

/-- Every channel moved into its bounds. -/
def clamped (rgb : Rgb Rat) : Rgb Rat := ⟨channel rgb.red, channel rgb.green, channel rgb.blue⟩

theorem inRange_clamped (rgb : Rgb Rat) : (clamped rgb).InRange :=
  ⟨channel_mem _, channel_mem _, channel_mem _⟩

theorem clamped_of_inRange {rgb : Rgb Rat} (inRange : rgb.InRange) : clamped rgb = rgb := by
  rw [clamped, channel_of_mem inRange.red, channel_of_mem inRange.green,
    channel_of_mem inRange.blue]

/-! ### Scaling -/

omit [Powers] in
/-- Every channel scaled, and cut at its bound. -/
def stretched (ratio : Rat) (rgb : Rgb Rat) : Rgb Rat :=
  ⟨min 255 (rgb.red * ratio), min 255 (rgb.green * ratio), min 255 (rgb.blue * ratio)⟩

/-- Some channel stands at its upper bound. -/
def Saturated (rgb : Rgb Rat) : Prop := rgb.red = 255 ∨ rgb.green = 255 ∨ rgb.blue = 255

theorem luminance_scaled_by (ratio : Rat) (rgb : Rgb Rat) :
    luminance ⟨rgb.red * ratio, rgb.green * ratio, rgb.blue * ratio⟩ = luminance rgb * ratio := by
  rw [luminance_eq, luminance_eq]
  ring

/-- Cutting channels only darkens. -/
theorem luminance_stretched_le (ratio : Rat) (rgb : Rgb Rat) :
    luminance (stretched ratio rgb) ≤ luminance rgb * ratio := by
  have red := min_le_right 255 (rgb.red * ratio)
  have green := min_le_right 255 (rgb.green * ratio)
  have blue := min_le_right 255 (rgb.blue * ratio)
  rw [← luminance_scaled_by, luminance_eq, luminance_eq, stretched]
  dsimp only
  linarith

theorem luminance_stretched_of_free {ratio : Rat} {rgb : Rgb Rat}
    (free : ¬ Saturated (stretched ratio rgb)) :
    luminance (stretched ratio rgb) = luminance rgb * ratio := by
  simp only [Saturated, stretched, not_or] at free
  have same {x : Rat} (below : min 255 x ≠ 255) : min 255 x = x :=
    (min_choice 255 x).resolve_left below
  rw [← luminance_scaled_by, stretched, same free.1, same free.2.1, same free.2.2]

section scaling

variable {rgb : Rgb Rat} {ratio : Rat} (start : 0 ≤ ratio)
include start

omit [Powers] in
theorem inRange_stretched (inRange : rgb.InRange) : (stretched ratio rgb).InRange := by
  have each {x : Rat} (low : 0 ≤ x) : 0 ≤ min 255 (x * ratio) ∧ min 255 (x * ratio) ≤ 255 :=
    ⟨le_min (by norm_num) (mul_nonneg low start), min_le_left ..⟩
  exact ⟨each inRange.red.1, each inRange.green.1, each inRange.blue.1⟩

/-- Where the greatest channel stays within its bound, nothing is lost. -/
theorem luminance_stretched_of_fits (fits : peak rgb * ratio ≤ 255) :
    luminance (stretched ratio rgb) = luminance rgb * ratio := by
  obtain ⟨red, green, blue⟩ := le_peak rgb
  have within {x : Rat} (high : x ≤ peak rgb) : min 255 (x * ratio) = x * ratio :=
    min_eq_right ((mul_le_mul_of_nonneg_right high start).trans fits)
  rw [← luminance_scaled_by, stretched, within red, within green, within blue]

end scaling

/-! ### Settling -/

omit [Powers] in
/-- One channel takes what the others leave of a luminance. -/
def settled (target : Rat) (rgb : Rgb Rat) : Rgb Rat :=
  if rgb.green = 0 ∨ rgb.red = 255 ∨ rgb.blue = 255 then
    ⟨rgb.red, (1000 * target - 299 * rgb.red - 114 * rgb.blue) / 587, rgb.blue⟩
  else if rgb.red = 0 then
    ⟨(1000 * target - 587 * rgb.green - 114 * rgb.blue) / 299, rgb.green, rgb.blue⟩
  else if rgb.blue = 0 ∨ rgb.green = 255 then
    ⟨rgb.red, rgb.green, (1000 * target - 299 * rgb.red - 587 * rgb.green) / 114⟩
  else rgb

omit [Powers] in
/-- The channel that takes the rest is full. -/
def brimming (rgb : Rgb Rat) : Rgb Rat :=
  if rgb.green = 0 ∨ rgb.red = 255 ∨ rgb.blue = 255 then { rgb with green := 255 }
  else if rgb.red = 0 then { rgb with red := 255 }
  else if rgb.blue = 0 ∨ rgb.green = 255 then { rgb with blue := 255 }
  else rgb

omit [Powers] in
/-- A channel that takes what the weights of the others leave of a luminance gives all of it, as far
as the channel goes. -/
theorem weighted_rest {weight : Rat} (positive : 0 < weight) (others target : Rat) :
    (others + weight * min 255 ((1000 * target - others) / weight)) / 1000
      = min target ((others + weight * 255) / 1000) := by
  have whole : weight * ((1000 * target - others) / weight) = 1000 * target - others :=
    mul_div_cancel₀ _ positive.ne'
  rcases le_total 255 ((1000 * target - others) / weight) with full | free
  · have most : (others + weight * 255) / 1000 ≤ target := by
      have taken := mul_le_mul_of_nonneg_left full positive.le
      linarith
    rw [min_eq_left full, min_eq_right most]
  · have least : target ≤ (others + weight * 255) / 1000 := by
      have taken := mul_le_mul_of_nonneg_left free positive.le
      linarith
    rw [min_eq_right free, min_eq_left least, whole]
    ring

/-- Settling a colour that is no brighter than the target gives it the luminance of the target, or
the one it has with the free channel full. -/
theorem luminance_clamped_settled {rgb : Rgb Rat} (inRange : rgb.InRange) {target : Rat}
    (below : luminance rgb ≤ target) (free : ¬ Saturated rgb → luminance rgb = target) :
    luminance (clamped (settled target rgb)) = min target (luminance (brimming rgb)) := by
  have red := channel_of_mem inRange.red
  have green := channel_of_mem inRange.green
  have blue := channel_of_mem inRange.blue
  have sum := luminance_eq rgb
  unfold settled brimming
  -- The free channel takes what the other two leave of the target, or as much as it can hold.
  split
  next =>
    have rest : 0 ≤ (1000 * target - 299 * rgb.red - 114 * rgb.blue) / 587 :=
      div_nonneg (by linarith [inRange.green.1]) (by norm_num)
    rw [clamped, red, blue, channel_of_nonneg rest, luminance_eq, luminance_eq, sub_sub,
      add_right_comm, weighted_rest (by norm_num), add_right_comm]
  next others =>
  split
  next =>
    have rest : 0 ≤ (1000 * target - 587 * rgb.green - 114 * rgb.blue) / 299 :=
      div_nonneg (by linarith [inRange.red.1]) (by norm_num)
    rw [clamped, green, blue, channel_of_nonneg rest, luminance_eq, luminance_eq, sub_sub,
      add_assoc, add_comm, weighted_rest (by norm_num), add_comm, ← add_assoc]
  next =>
  split
  next =>
    have rest : 0 ≤ (1000 * target - 299 * rgb.red - 587 * rgb.green) / 114 :=
      div_nonneg (by linarith [inRange.blue.1]) (by norm_num)
    rw [clamped, red, green, channel_of_nonneg rest, luminance_eq, luminance_eq, sub_sub,
      weighted_rest (by norm_num)]
  next neither =>
    have same : luminance rgb = target := by
      apply free
      simp only [Saturated]
      tauto
    rw [clamped_of_inRange inRange, same, min_self]

/-- A colour in range is no brighter than it is with its free channel full. -/
theorem luminance_le_brimming {rgb : Rgb Rat} (inRange : rgb.InRange) :
    luminance rgb ≤ luminance (brimming rgb) := by
  obtain ⟨red, green, blue⟩ := inRange
  rw [luminance_eq, luminance_eq, brimming]
  split_ifs <;> linarith

/-- Where a channel is cut, green and another channel are full in the end. -/
theorem brimming_of_saturated {rgb : Rgb Rat} (inRange : rgb.InRange) (cut : Saturated rgb) :
    701 * 255 ≤ 1000 * luminance (brimming rgb) := by
  obtain ⟨red, green, blue⟩ := inRange
  rw [luminance_eq, brimming]
  split
  next others =>
    have full : rgb.red = 255 ∨ rgb.blue = 255 := by
      rcases others with none | others
      · rcases cut with redFull | greenFull | blueFull
        · exact .inl redFull
        · linarith
        · exact .inr blueFull
      · exact others
    rcases full with redFull | blueFull <;> linarith
  next others =>
    -- Neither red nor blue is cut, so green is.
    have full : rgb.green = 255 := by
      simp only [not_or] at others
      exact (cut.resolve_left others.2.1).resolve_right others.2.2
    rw [if_pos (Or.inr full)]
    split <;> linarith

/-! ### Retargeting -/

/-- The greatest luminance that the colour can be given on the way to a target. Black becomes any
grey. -/
def reach (target : Rat) (rgb : Rgb Rat) : Rat :=
  if luminance rgb < 1 / 1000 then 255
  else luminance (brimming (stretched (target / luminance rgb) rgb))

theorem retarget_eq (target : Rat) (rgb : Rgb Rat) :
    retarget target rgb =
      if luminance rgb < 1 / 1000 then ⟨target, target, target⟩
      else clamped (settled target (stretched (target / luminance rgb) rgb)) := by
  unfold retarget
  norm_num [settled, stretched, clamped, least_eq, or_assoc]

section retarget

variable {rgb : Rgb Rat} (inRange : rgb.InRange) {target : Rat} (start : 0 ≤ target)

section bright

variable (bright : ¬ luminance rgb < 1 / 1000)
include start bright

theorem ratio_to :
    0 ≤ target / luminance rgb ∧ luminance rgb * (target / luminance rgb) = target := by
  have positive : 0 < luminance rgb := by linarith
  exact ⟨div_nonneg start positive.le, mul_div_cancel₀ _ positive.ne'⟩

theorem luminance_stretched_to :
    luminance (stretched (target / luminance rgb) rgb) ≤ target ∧
      (¬ Saturated (stretched (target / luminance rgb) rgb) →
        luminance (stretched (target / luminance rgb) rgb) = target) := by
  have below := luminance_stretched_le (target / luminance rgb) rgb
  have free := @luminance_stretched_of_free _ (target / luminance rgb) rgb
  rw [(ratio_to start bright).2] at below free
  exact ⟨below, free⟩

end bright

include inRange start

/-- Retargeting gives a colour the luminance of the target, as far as the colour can be given it. -/
theorem luminance_retarget_eq_min (whole : target ≤ 255) :
    luminance (retarget target rgb) = min target (reach target rgb) := by
  rw [retarget_eq, reach]
  split
  next => rw [luminance_grey, min_eq_left whole]
  next bright =>
    obtain ⟨below, free⟩ := luminance_stretched_to start bright
    exact luminance_clamped_settled
      (inRange_stretched (ratio_to start bright).1 inRange) below free

theorem le_reach_of_dim (dim : 1000 * target ≤ 701 * 255) : target ≤ reach target rgb := by
  rw [reach]
  split
  next => linarith
  next bright =>
    have scaled := inRange_stretched (ratio_to start bright).1 inRange
    by_cases cut : Saturated (stretched (target / luminance rgb) rgb)
    · linarith [brimming_of_saturated scaled cut]
    · calc target = luminance (stretched (target / luminance rgb) rgb) :=
          ((luminance_stretched_to start bright).2 cut).symm
        _ ≤ _ := luminance_le_brimming scaled

theorem le_reach_of_fits (whole : target ≤ 255) (fits : peak rgb * target ≤ 255 * luminance rgb) :
    target ≤ reach target rgb := by
  rw [reach]
  split
  next => exact whole
  next bright =>
    obtain ⟨ratio, lands⟩ := ratio_to start bright
    have within : peak rgb * (target / luminance rgb) ≤ 255 := by
      rw [← mul_div_assoc, div_le_iff₀ (by linarith)]
      exact fits
    calc target = luminance (stretched (target / luminance rgb) rgb) := by
          rw [luminance_stretched_of_fits ratio within, lands]
      _ ≤ _ := luminance_le_brimming (inRange_stretched ratio inRange)

end retarget

theorem inRange_retarget (rgb : Rgb Rat) {target : Rat} (start : 0 ≤ target)
    (whole : target ≤ 255) : (retarget target rgb).InRange := by
  rw [retarget_eq]
  split
  · exact ⟨⟨start, whole⟩, ⟨start, whole⟩, ⟨start, whole⟩⟩
  · exact inRange_clamped _

/-- Retargeting lands on a luminance that green could show on its own, or that the colour reaches
without a cut. -/
theorem retarget_lands {rgb : Rgb Rat} (inRange : rgb.InRange) {target : Rat} (start : 0 ≤ target)
    (whole : target ≤ 255)
    (fits : 1000 * target ≤ 587 * 255 ∨ peak rgb * target ≤ 255 * luminance rgb) :
    (retarget target rgb).InRange ∧ luminance (retarget target rgb) = target := by
  refine ⟨inRange_retarget rgb start whole, ?_⟩
  rw [luminance_retarget_eq_min inRange start whole, min_eq_left_iff]
  rcases fits with dim | fits
  · exact le_reach_of_dim inRange start (by linarith)
  · exact le_reach_of_fits inRange start whole fits

/-- Blue falls short of every target that green and blue cannot show on their own. -/
theorem reach_blue {target : Rat} (bright : 701 * 255 < 1000 * target) :
    1000 * reach target ⟨0, 0, 255⟩ = 701 * 255 := by
  have blue : luminance (⟨0, 0, 255⟩ : Rgb Rat) = 29070 / 1000 := by norm_num [luminance_eq]
  have cut : 255 ≤ 255 * (target / (29070 / 1000)) := by
    rw [le_mul_iff_one_le_right (by norm_num), le_div_iff₀ (by norm_num)]
    linarith
  have scaled : stretched (target / (29070 / 1000)) ⟨0, 0, 255⟩ = ⟨0, 0, 255⟩ := by
    simp [stretched, min_eq_left cut]
  rw [reach, blue, scaled, if_neg (by norm_num)]
  norm_num [brimming, luminance_eq]

/-- Retargeting gives every colour in range a colour in range that has the luminance of the target,
or the most the colour can be given on the way to it if that is less; and it lands on the target for
every colour exactly when green and blue could show the target on their own. -/
theorem retarget_lands_iff {target : Rat} (start : 0 ≤ target) (whole : target ≤ 255) :
    (∀ rgb : Rgb Rat, rgb.InRange → (retarget target rgb).InRange ∧
      luminance (retarget target rgb) = min target (reach target rgb)) ∧
    ((∀ rgb : Rgb Rat, rgb.InRange → luminance (retarget target rgb) = target) ↔
      1000 * target ≤ 701 * 255) := by
  refine ⟨fun rgb inRange => ?_, fun lands => ?_, fun dim rgb inRange => ?_⟩
  · exact ⟨inRange_retarget rgb start whole, luminance_retarget_eq_min inRange start whole⟩
  · by_contra bright
    have inRange : (⟨0, 0, 255⟩ : Rgb Rat).InRange := ⟨by norm_num, by norm_num, by norm_num⟩
    have short := reach_blue (not_le.mp bright)
    have reached := lands _ inRange
    rw [luminance_retarget_eq_min inRange start whole, min_eq_left_iff] at reached
    linarith
  · rw [luminance_retarget_eq_min inRange start whole, min_eq_left_iff]
    exact le_reach_of_dim inRange start dim

omit [Powers] in
/-- Red is cut at its bound on the way to both targets: green can make up for it up to the first one
and falls short of the second. -/
theorem retarget_lands_iff_red :
    letI : Powers := ⟨fun _ _ => none⟩
    (⟨255, 0, 0⟩ : Rgb Rat).InRange ∧
      ((0 : Rat) ≤ 178 ∧ (178 : Rat) ≤ 255 ∧ (1000 : Rat) * 178 ≤ 701 * 255 ∧
        retarget (178 : Rat) ⟨255, 0, 0⟩ = ⟨255, 101755 / 587, 0⟩ ∧
        luminance (retarget (178 : Rat) ⟨255, 0, 0⟩) = 178) ∧
      (0 : Rat) ≤ 255 ∧ (255 : Rat) ≤ 255 ∧
        luminance (retarget (255 : Rat) ⟨255, 0, 0⟩) = 22593 / 100 := by
  let _ : Powers := ⟨fun _ _ => none⟩
  have red : (⟨255, 0, 0⟩ : Rgb Rat).InRange := ⟨by norm_num, by norm_num, by norm_num⟩
  have dim : (1000 : Rat) * 178 ≤ 701 * 255 := by norm_num
  have lands := (@retarget_lands_iff _ 178 (by norm_num) (by norm_num)).2.mpr dim _ red
  have green : retarget (178 : Rat) ⟨255, 0, 0⟩ = ⟨255, 101755 / 587, 0⟩ := by decide +kernel
  have short := ((@retarget_lands_iff _ 255 (by norm_num) le_rfl).1 _ red).2
  refine ⟨red, ⟨by norm_num, by norm_num, dim, green, lands⟩, by norm_num, le_rfl, ?_⟩
  rw [short]
  norm_num [reach, stretched, brimming, luminance_eq]

end ThemeCss.Colour
