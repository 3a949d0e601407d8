import ThemeCss.Proofs.Colour.Model
import ThemeCss.Theme.Classify
import ThemeCss.Theme.Remap

/-!
# Surfaces

A property of a surface is classified as one of five roles, and each has a band of lightness. A
colour that is not vivid lands in the band of its role, unless it is dark and saturated: all roles
share one lightness for that.
-/
namespace ThemeCss.Theme

open Scalar Colour

/-- The roles that properties of surfaces are classified as. -/
def surfaces : List Role := [.background, .table, .blockquote, .code, .selection]

theorem backgroundVariant_mem (base : Role) (isCode : Bool) :
    base.backgroundVariant isCode ∈ surfaces := by
  cases base <;> cases isCode <;> decide

theorem isText_of_mem_surfaces {role : Role} (listed : role ∈ surfaces) : role.isText = false := by
  revert role
  decide

/-! ### Bands -/

/-- A band of lightness in its range, with a damping that leaves a part. -/
structure IsBand (band : Band Rat) : Prop where
  start : 0 ≤ band.low
  order : band.low ≤ band.high
  whole : band.high ≤ 100
  damping : 0 ≤ band.damping ∧ band.damping ≤ 1

namespace IsBand

variable {band : Band Rat} (isBand : IsBand band)
include isBand

/-- A part of the way through a band ends in it. -/
theorem step {part : Rat} (start : 0 ≤ part) (whole : part ≤ 1) :
    band.low ≤ band.low + part * (band.high - band.low) ∧
      band.low + part * (band.high - band.low) ≤ band.high := by
  have order := isBand.order
  constructor <;> nlinarith

theorem damped {saturation : Rat} (start : 0 ≤ saturation) (whole : saturation ≤ 100) :
    0 ≤ saturation * band.damping ∧ saturation * band.damping ≤ 100 := by
  obtain ⟨some, part⟩ := isBand.damping
  constructor
  · exact mul_nonneg start some
  · nlinarith

end IsBand

variable [Powers]

theorem isBand_of_mem_surfaces {role : Role} (listed : role ∈ surfaces) :
    role.band? = some (role.band : Band Rat) ∧ IsBand role.band := by
  simp only [surfaces, List.mem_cons, List.not_mem_nil, or_false] at listed
  rcases listed with rfl | rfl | rfl | rfl | rfl
  all_goals
    refine ⟨rfl, ?_⟩
    constructor <;> norm_num [Role.band, Role.band?]

/-- Where a surface takes a lightness: to 22 when the colour is dark and saturated, and into the
band of its role when it is not. -/
def Lands (role : Role) (hsl : Hsl Rat) (lightness : Rat) : Prop :=
  if hsl.lightness < 15 ∧ 8 < hsl.saturation then lightness = 22
  else ∃ band : Band Rat, role.band? = some band ∧ band.low ≤ lightness ∧ lightness ≤ band.high

section adjusted

variable {role : Role} (listed : role ∈ surfaces) {hsl : Hsl Rat} (inRange : hsl.InRange)
include listed inRange

theorem lands_in_band {moved : Hsl Rat} (light : ¬ (hsl.lightness < 15 ∧ 8 < hsl.saturation))
    (hue : moved.hue = hsl.hue) (saturation : 0 ≤ moved.saturation ∧ moved.saturation ≤ 100)
    (between : (role.band : Band Rat).low ≤ moved.lightness ∧
      moved.lightness ≤ (role.band : Band Rat).high) :
    moved.InRange ∧ Lands role hsl moved.lightness := by
  obtain ⟨found, isBand⟩ := isBand_of_mem_surfaces listed
  have start := isBand.start
  have whole := isBand.whole
  constructor
  · exact ⟨hue ▸ inRange.hue, saturation, by linarith, by linarith⟩
  · rw [Lands, if_neg light]
    exact ⟨_, found, between⟩

/-- A surface is adjusted by moving lightness and damping saturation. -/
theorem exists_adjustSurface
    (powers : ∀ x : Rat, 0 ≤ x → x ≤ 1 → ∃ y, power? x (0.7 : Rat) = some y ∧ 0 ≤ y ∧ y ≤ 1) :
    ∃ moved : Hsl Rat, adjustSurface {} role hsl = .ok (ofHsl moved) ∧ moved.InRange ∧
      Lands role hsl moved.lightness := by
  obtain ⟨found, isBand⟩ := isBand_of_mem_surfaces listed
  obtain ⟨start, whole⟩ := inRange.lightness
  have damped := isBand.damped inRange.saturation.1 inRange.saturation.2
  by_cases white : role = .table ∧ 85 < hsl.lightness
  · -- What remains to white is a part of 15, so its power is a part of the band.
    obtain ⟨part, raised, partStart, partWhole⟩ := powers ((100 - hsl.lightness) / 15)
      (by linarith [white.2]) (by linarith [white.2])
    refine ⟨⟨hsl.hue, hsl.saturation * (role.band : Band Rat).damping,
      (role.band : Band Rat).low
        + part * ((role.band : Band Rat).high - (role.band : Band Rat).low)⟩, ?_, ?_⟩
    · norm_num at raised
      unfold adjustSurface
      norm_num [white.1, white.2, raised]
    · exact lands_in_band listed inRange (fun dark => by linarith [white.2, dark.1]) rfl damped
        (isBand.step partStart partWhole)
  by_cases anchored : hsl.lightness < 15 ∧ 8 < hsl.saturation
  · refine ⟨⟨hsl.hue, hsl.saturation, 22⟩, ?_, ?_, ?_⟩
    · unfold adjustSurface
      norm_num [white, anchored]
    · exact ⟨inRange.hue, inRange.saturation, by norm_num, by norm_num⟩
    · rw [Lands, if_pos anchored]
  · refine ⟨⟨hsl.hue, if 5 < hsl.saturation then hsl.saturation * (role.band : Band Rat).damping
        else hsl.saturation, (role.band : Band Rat).high
          - hsl.lightness / 100 * ((role.band : Band Rat).high - (role.band : Band Rat).low)⟩,
      ?_, ?_⟩
    · unfold adjustSurface invertInto
      norm_num [white, anchored]
    · apply lands_in_band listed inRange anchored
      · rfl
      · dsimp only
        split
        · exact damped
        · exact inRange.saturation
      · -- Going down from the top is going up the rest of the way.
        have start : 0 ≤ 1 - hsl.lightness / 100 := by linarith
        have step := isBand.step start (by linarith)
        constructor <;> linarith [step.1, step.2]

end adjusted

theorem classify_surface {property : Text} (surface : isSurfaceProperty property = true)
    (tuning : Tuning Rat) (selector : Text) (own : Option (Rgb Rat)) :
    classify tuning selector property own
      = .ok ((regionOf selector).backgroundVariant (namesCode selector)) := by
  simp [classify, surface, pure, Except.pure]

theorem remap_surface {role : Role} (listed : role ∈ surfaces) {tuning : Tuning Rat}
    {rgb : Rgb Rat} {hsl : Hsl Rat} (read : toHsl rgb = .ok hsl)
    (dull : ¬ isVibrant tuning hsl) : remap tuning role rgb = adjustSurface tuning role hsl := by
  simp only [remap, read, bind, Except.bind, if_neg dull]
  simp only [surfaces, List.mem_cons, List.not_mem_nil, or_false] at listed
  rcases listed with rfl | rfl | rfl | rfl | rfl <;> rfl

/-- A property of a surface gets a role that is no text's, and under it every colour in range that
is not vivid becomes a colour in range whose lightness lands in the band of the role, or at 22 when
the colour is dark and saturated. Powers may be any that make parts of parts. -/
theorem lightness_remap_surface
    (powers : ∀ x : Rat, 0 ≤ x → x ≤ 1 → ∃ y, power? x (0.7 : Rat) = some y ∧ 0 ≤ y ∧ y ≤ 1)
    (selector : Text) {property : Text} (surface : isSurfaceProperty property = true)
    (own : Option (Rgb Rat)) {rgb : Rgb Rat} (inRange : rgb.InRange) :
    ∃ (role : Role) (hsl : Hsl Rat), classify {} selector property own = .ok role ∧
      role.isText = false ∧ toHsl rgb = .ok hsl ∧ (¬ isVibrant {} hsl →
        ∃ (out : Rgb Rat) (shade : Hsl Rat), remap {} role rgb = .ok out ∧ out.InRange ∧
          toHsl out = .ok shade ∧ Lands role hsl shade.lightness) := by
  have listed := backgroundVariant_mem (regionOf selector) (namesCode selector)
  obtain ⟨hsl, read, described, _⟩ := exists_toHsl inRange
  refine ⟨_, hsl, classify_surface surface {} selector own, isText_of_mem_surfaces listed, read, ?_⟩
  intro dull
  obtain ⟨moved, adjusted, movedRange, lands⟩ := exists_adjustSurface listed described powers
  obtain ⟨shade, shadeRead, same⟩ := exists_toHsl_ofHsl movedRange
  refine ⟨ofHsl moved, shade, ?_, inRange_ofHsl movedRange, shadeRead, same ▸ lands⟩
  rw [remap_surface listed read dull, adjusted]

omit [Powers] in
theorem lightness_remap_surface_white :
    letI : Powers := ⟨fun x _ => some x⟩
    (∀ x : Rat, 0 ≤ x → x ≤ 1 → ∃ y, power? x (0.7 : Rat) = some y ∧ 0 ≤ y ∧ y ≤ 1) ∧
      isSurfaceProperty "background-color".toList = true ∧
      classify ({} : Tuning Rat) "td".toList "background-color".toList none = .ok .table ∧
      ∃ (out : Rgb Rat) (shade : Hsl Rat), remap {} .table ⟨255, 255, 255⟩ = .ok out ∧
        toHsl out = .ok shade ∧ 10 ≤ shade.lightness ∧ shade.lightness ≤ 24 := by
  let _ : Powers := ⟨fun x _ => some x⟩
  have powers : ∀ x : Rat, 0 ≤ x → x ≤ 1 → ∃ y, power? x (0.7 : Rat) = some y ∧ 0 ≤ y ∧ y ≤ 1 :=
    fun x start whole => ⟨x, rfl, start, whole⟩
  have surface : isSurfaceProperty "background-color".toList = true := by decide
  have table :
      classify ({} : Tuning Rat) "td".toList "background-color".toList none = .ok .table := by
    decide +kernel
  have inRange : Rgb.InRange ⟨255, 255, 255⟩ := ⟨by norm_num, by norm_num, by norm_num⟩
  have white : toHsl (⟨255, 255, 255⟩ : Rgb Rat) = .ok ⟨0, 0, 100⟩ := by decide +kernel
  obtain ⟨role, hsl, classified, _, read, lands⟩ :=
    lightness_remap_surface powers "td".toList surface none inRange
  obtain rfl : .table = role := by simpa only [table, Except.ok.injEq] using classified
  obtain rfl : ⟨0, 0, 100⟩ = hsl := by simpa only [white, Except.ok.injEq] using read
  obtain ⟨out, shade, run, _, described, band⟩ := lands (by norm_num [isVibrant])
  refine ⟨powers, surface, table, out, shade, run, described, ?_⟩
  norm_num [Lands, Role.band?] at band
  exact band

end ThemeCss.Theme
