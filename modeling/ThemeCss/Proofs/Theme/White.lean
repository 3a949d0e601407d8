import ThemeCss.Proofs.Colour.White
import ThemeCss.Proofs.Text.Failure
import ThemeCss.Theme.Classify
import ThemeCss.Theme.Remap

/-!
# Failing on white

Remapping and classifying fail only where a colour is described, so only for colours that are nearly
white. A power is taken of what a lightness leaves of a hundred, which is never negative. Channels
that are whole numbers are never nearly white.
-/
namespace ThemeCss.Theme

open Scalar Colour Double

theorem exists_power {lightness : Float} {v : Rat} (value : IsValue lightness v) (bound : v ≤ 100) :
    ∃ factor, power? ((100.0 - lightness) / 15.0) (0.7 : Float) = some factor := by
  obtain ⟨rest, restValue, restRounds⟩ :=
    exists_value_sub isValue_hundred value bound (by linarith [value.nonneg])
  have restBound : rest ≤ 100 := restRounds.le isValue_hundred.onGrid (by linarith [value.nonneg])
  obtain ⟨part, partValue, _⟩ :=
    exists_value_div restValue isValue_fifteen (by norm_num) (by linarith)
  have above := mt (lt_iff_value partValue isValue_zero).mp (not_lt.mpr partValue.nonneg)
  refine ⟨_, if_neg ?_⟩
  simp [above]

theorem failsIff_toHsl (rgb : Rgb Float) :
    FailsIff .divisionByZero (NearlyWhite rgb) (toHsl rgb) := by
  have described := toHsl_cases rgb
  constructor
  · intro white
    rwa [if_pos white] at described
  · intro dim
    rw [if_neg dim] at described
    obtain ⟨hsl, _, read, _⟩ := described
    exact ⟨hsl, read⟩

theorem exists_adjustSurface_of_bound (tuning : Tuning Float) (role : Role) {hsl : Hsl Float}
    {v : Rat} (value : IsValue hsl.lightness v) (bound : v ≤ 100) :
    ∃ out, adjustSurface tuning role hsl = .ok out := by
  unfold adjustSurface
  dsimp only
  split
  · obtain ⟨factor, raised⟩ := exists_power value bound
    rw [raised]
    exact ⟨_, rfl⟩
  split
  · exact ⟨_, rfl⟩
  · exact ⟨_, rfl⟩

theorem failsIff_remap (tuning : Tuning Float) (role : Role) (rgb : Rgb Float) :
    FailsIff .divisionByZero (NearlyWhite rgb) (remap tuning role rgb) := by
  have described := toHsl_cases rgb
  constructor
  · intro white
    rw [if_pos white] at described
    simp only [remap, described, bind, Except.bind]
  · intro dim
    rw [if_neg dim] at described
    obtain ⟨hsl, v, read, value, bound⟩ := described
    simp only [remap, read, bind, Except.bind]
    split
    · exact ⟨_, rfl⟩
    · cases role
      all_goals first
        | exact ⟨_, rfl⟩
        | exact exists_adjustSurface_of_bound tuning _ value bound

/-- Nearly white, and by luminance not near black. -/
def Blinds (tuning : Tuning Float) (rgb : Rgb Float) : Prop :=
  ¬ luminance rgb < tuning.nearBlackLuminance ∧ NearlyWhite rgb

instance (tuning : Tuning Float) : DecidablePred (Blinds tuning) := fun _ =>
  inferInstanceAs (Decidable (_ ∧ _))

/-- A line or a shadow that is not near black is described to find its role. -/
theorem failsIff_edgeRole? (tuning : Tuning Float) (rgb : Rgb Float) :
    FailsIff .divisionByZero (Blinds tuning rgb) (edgeRole? tuning rgb) := by
  unfold edgeRole? Blinds
  split
  next black => exact (FailsIff.returned _).congr (by simp [black])
  next lit =>
    apply ((failsIff_toHsl rgb).map _).congr
    simp [lit]

end ThemeCss.Theme
