import ThemeCss.Proofs.Colour.Model
import ThemeCss.Theme.Remap

/-!
# Vivid colours

A vivid colour keeps its hue and its saturation in every role, and its lightness goes into the vivid
band.
-/
namespace ThemeCss.Theme

open Scalar Colour

variable [Powers]

/-- Every colour in range can be described, and when it is vivid, remapping it in any role changes
the lightness alone, which lands in the band. -/
theorem toHsl_remap_vivid (tuning : Tuning Rat) (role : Role) {rgb : Rgb Rat}
    (inRange : rgb.InRange) (threshold : 0 ≤ tuning.vibrantSaturation)
    (low : 0 < tuning.vibrantBand.1) (order : tuning.vibrantBand.1 ≤ tuning.vibrantBand.2)
    (high : tuning.vibrantBand.2 < 100) :
    ∃ hsl : Hsl Rat, toHsl rgb = .ok hsl ∧ (isVibrant tuning hsl →
      ∃ (out : Rgb Rat) (lightness : Rat), remap tuning role rgb = .ok out ∧
        toHsl out = .ok ⟨hsl.hue, hsl.saturation, lightness⟩ ∧
        lightness = max tuning.vibrantBand.1
          (min tuning.vibrantBand.2 (hsl.lightness * tuning.vibrantFactor)) ∧
        tuning.vibrantBand.1 ≤ lightness ∧ lightness ≤ tuning.vibrantBand.2) := by
  obtain ⟨hsl, read, described, _⟩ := exists_toHsl inRange
  refine ⟨hsl, read, ?_⟩
  intro vibrant
  obtain ⟨above, below⟩ := clamp_mem order (hsl.lightness * tuning.vibrantFactor)
  have coloured : 0 < hsl.saturation := threshold.trans_lt vibrant.1
  have moved : Hsl.InRange ⟨hsl.hue, hsl.saturation, clamp tuning.vibrantBand.1 tuning.vibrantBand.2
      (hsl.lightness * tuning.vibrantFactor)⟩ :=
    ⟨described.hue, described.saturation, by linarith, by linarith⟩
  refine ⟨_, _, ?_, toHsl_ofHsl moved coloured (by linarith) (by linarith), clamp_eq .., above,
    below⟩
  simp only [remap, read, bind, Except.bind, if_pos vibrant]
  rfl

omit [Powers] in
theorem toHsl_remap_vivid_red :
    letI : Powers := ⟨fun _ _ => none⟩
    toHsl (⟨255, 0, 0⟩ : Rgb Rat) = .ok ⟨0, 100, 50⟩ ∧ isVibrant {} (⟨0, 100, 50⟩ : Hsl Rat) ∧
      ∃ out : Rgb Rat, remap {} .code ⟨255, 0, 0⟩ = .ok out ∧ toHsl out = .ok ⟨0, 100, 42.5⟩ := by
  let _ : Powers := ⟨fun _ _ => none⟩
  have inRange : Rgb.InRange ⟨255, 0, 0⟩ := ⟨by norm_num, by norm_num, by norm_num⟩
  have red : toHsl (⟨255, 0, 0⟩ : Rgb Rat) = .ok ⟨0, 100, 50⟩ := by decide +kernel
  have vibrant : isVibrant {} (⟨0, 100, 50⟩ : Hsl Rat) := by norm_num [isVibrant]
  obtain ⟨hsl, read, lands⟩ := toHsl_remap_vivid {} .code inRange (by norm_num) (by norm_num)
    (by norm_num) (by norm_num)
  obtain rfl : ⟨0, 100, 50⟩ = hsl := by
    have both := red.symm.trans read
    injection both
  obtain ⟨out, lightness, run, described, moved, _⟩ := lands vibrant
  refine ⟨red, vibrant, out, run, ?_⟩
  rw [described, moved]
  norm_num

end ThemeCss.Theme
