import ThemeCss.Proofs.Colour.Retarget
import ThemeCss.Theme.Classify
import ThemeCss.Theme.Remap

/-!
# Readable text

A colour of text that is not vivid gets a luminance that reads on the dark surface. Text of regions
is described anew, light enough for any hue. Other text is retargeted, which lands exactly: what is
dark asks for no more than green could show, and what is light is pale, so that no channel is cut.
-/
namespace ThemeCss.Theme

open Scalar Colour

/-- Roles of text that are moved by luminance alone. -/
def plainTexts : List Role := [.heading, .body, .other, .selectionText]

/-- Roles of text that the colour property is classified as. -/
def texts : List Role := plainTexts ++ [.tableText, .blockquoteText, .codeText]

/-- Roles of regions. -/
def regions : List Role :=
  [.selection, .decorativeDark, .blockquote, .code, .table, .heading, .body, .background, .other]

theorem regionOf_mem (selector : Text) : regionOf selector ∈ regions := by
  unfold regionOf
  extract_lets lowered target
  split_ifs <;> decide

theorem textVariant_mem :
    ∀ base ∈ regions, base ≠ .decorativeDark → ∀ isCode, base.textVariant isCode ∈ texts := by
  decide

variable [Powers]

theorem classify_colour (tuning : Tuning Rat) (selector : Text) (own : Option (Rgb Rat)) :
    classify tuning selector "color".toList own
      = .ok ((regionOf selector).textVariant (namesCode selector)) := by
  have surface : isSurfaceProperty "color".toList = false := by decide
  have edge : isEdgeProperty "color".toList = false := by decide
  have colour : Text.isKeyword "color".toList "color".toList = true := by decide
  unfold classify
  rw [surface, edge, colour]
  rfl

/-! ### Dull colours -/

/-- A colour in range, its description, and that it is not vivid. -/
structure Dull (rgb : Rgb Rat) (hsl : Hsl Rat) : Prop where
  inRange : rgb.InRange
  read : toHsl rgb = .ok hsl
  dull : ¬ isVibrant {} hsl

namespace Dull

variable {rgb : Rgb Rat} {hsl : Hsl Rat} (colour : Dull rgb hsl)
include colour

theorem described :
    hsl.InRange ∧ peak rgb = highest hsl * 255 ∧ trough rgb = lowest hsl * 255 := by
  obtain ⟨found, read, described⟩ := exists_toHsl colour.inRange
  obtain rfl : found = hsl := by
    have both := read.symm.trans colour.read
    injection both
  exact described

/-- What is neither near black nor near white is pale. -/
theorem pale (dark : 15 < hsl.lightness) (light : hsl.lightness < 95) : hsl.saturation ≤ 15 := by
  by_contra vivid
  have vivid : 15 < hsl.saturation := not_le.mp vivid
  apply colour.dull
  unfold isVibrant
  norm_num [vivid, dark, light]

end Dull

section extremes

variable {hsl : Hsl Rat} (inRange : hsl.InRange)
include inRange

omit [Powers] in
/-- The extremes of a pale colour are close to its lightness. -/
theorem close_of_pale (pale : hsl.saturation ≤ 15) :
    highest hsl ≤ hsl.lightness / 100 + 15 / 100 * (1 - hsl.lightness / 100) ∧
      hsl.lightness / 100 - 15 / 100 * (hsl.lightness / 100) ≤ lowest hsl ∧
      hsl.lightness / 100 - 15 / 100 * (1 - hsl.lightness / 100) ≤ lowest hsl := by
  have part : hsl.saturation / 100 ≤ 15 / 100 := by linarith
  have positive : 0 ≤ room (hsl.lightness / 100) := by
    apply le_min
    · linarith [inRange.lightness.1]
    · linarith [inRange.lightness.2]
  have carried := mul_le_mul_of_nonneg_right part positive
  have below : room (hsl.lightness / 100) ≤ hsl.lightness / 100 := min_le_left ..
  have above : room (hsl.lightness / 100) ≤ 1 - hsl.lightness / 100 := min_le_right ..
  unfold highest lowest
  refine ⟨?_, ?_, ?_⟩ <;> linarith

omit [Powers] in
/-- The extremes of any colour keep the bounds of the room around its lightness. -/
theorem extremes_le :
    highest hsl ≤ 2 * (hsl.lightness / 100) ∧ 2 * (hsl.lightness / 100) - 1 ≤ lowest hsl := by
  obtain ⟨_, below, above⟩ := room_bounds inRange
  unfold highest lowest
  constructor <;> linarith

/-- A description of some lightness reads, whatever the hue. -/
theorem ofHsl_reads (light : 75 ≤ hsl.lightness) :
    (ofHsl hsl).InRange ∧ 90 ≤ luminance (ofHsl hsl) := by
  refine ⟨inRange_ofHsl inRange, ?_⟩
  have above := (luminance_mem (ofHsl hsl)).1
  have floor := (extremes_le inRange).2
  rw [(extremes_ofHsl inRange).2] at above
  linarith

end extremes

/-! ### Plain text -/

/-- Luminances that are kept. -/
def Reads (rgb : Rgb Rat) : Prop :=
  (90 ≤ luminance rgb ∧ luminance rgb ≤ 205) ∨ 220 < luminance rgb

instance (rgb : Rgb Rat) : Decidable (Reads rgb) := inferInstanceAs (Decidable (_ ∨ _))

theorem adjustText_eq (rgb : Rgb Rat) (hsl : Hsl Rat) :
    adjustText {} rgb hsl =
      if Reads rgb then rgb else retarget (90 + hsl.lightness / 100 * 115) rgb := by
  have ground : luminance ({} : Tuning Rat).surface = 25 := by
    norm_num [luminance_eq]
  unfold adjustText Reads
  rw [ground]
  by_cases white : 220 < luminance rgb
  · norm_num [white]
  · norm_num [white]

theorem dark_or_light {rgb : Rgb Rat} (unread : ¬ Reads rgb) :
    luminance rgb < 90 ∨ (205 < luminance rgb ∧ luminance rgb ≤ 220) := by
  unfold Reads at unread
  push Not at unread
  by_cases dark : luminance rgb < 90
  · exact .inl dark
  · exact .inr ⟨unread.1 (not_lt.mp dark), unread.2⟩

section dull

variable {rgb : Rgb Rat} {hsl : Hsl Rat} (colour : Dull rgb hsl)
include colour

/-- Dull text that is too dark is not light enough to ask for more than green could show. -/
theorem target_of_dark (dark : luminance rgb < 90) :
    1000 * (90 + hsl.lightness / 100 * 115) ≤ 587 * 255 := by
  obtain ⟨inRange, _, bottom⟩ := colour.described
  have above := (luminance_mem rgb).1
  rw [bottom] at above
  rcases le_or_gt hsl.lightness 15 with black | lit
  · linarith
  rcases le_or_gt 95 hsl.lightness with white | shaded
  · linarith [(extremes_le inRange).2]
  · have close := close_of_pale inRange (colour.pale lit shaded)
    linarith [close.2.1]

/-- Dull text that is a little too light is pale, and its target is darker than it is. -/
theorem target_of_light (light : 205 < luminance rgb ∧ luminance rgb ≤ 220) :
    90 + hsl.lightness / 100 * 115 ≤ luminance rgb := by
  obtain ⟨inRange, top, bottom⟩ := colour.described
  obtain ⟨above, under⟩ := luminance_mem rgb
  rw [bottom] at above
  rw [top] at under
  rcases le_or_gt hsl.lightness 15 with black | lit
  · linarith [(extremes_le inRange).1, light.1]
  rcases le_or_gt 95 hsl.lightness with white | shaded
  · linarith [(extremes_le inRange).2, light.2]
  · have close := close_of_pale inRange (colour.pale lit shaded)
    linarith [close.2.2, light.1, light.2]

/-- A darker target cuts nothing. -/
theorem fits_of_le {target : Rat} (darker : target ≤ luminance rgb) :
    peak rgb * target ≤ 255 * luminance rgb := by
  obtain ⟨bottom, top⟩ := inRange_iff.mp colour.inRange
  obtain ⟨above, under⟩ := luminance_mem rgb
  calc peak rgb * target ≤ peak rgb * luminance rgb :=
        mul_le_mul_of_nonneg_left darker (by linarith)
    _ ≤ 255 * luminance rgb := mul_le_mul_of_nonneg_right top (by linarith)

theorem adjustText_lands :
    (adjustText {} rgb hsl).InRange ∧
      if Reads rgb then adjustText {} rgb hsl = rgb
      else luminance (adjustText {} rgb hsl) = 90 + 115 / 100 * hsl.lightness := by
  rw [adjustText_eq]
  split
  next => exact ⟨colour.inRange, rfl⟩
  next unread =>
    obtain ⟨start, whole⟩ := colour.described.1.lightness
    have low : 0 ≤ 90 + hsl.lightness / 100 * 115 := by linarith
    have high : 90 + hsl.lightness / 100 * 115 ≤ 255 := by linarith
    have lands := retarget_lands colour.inRange low high (by
      rcases dark_or_light unread with dark | light
      · exact .inl (target_of_dark colour dark)
      · exact .inr (fits_of_le colour (target_of_light colour light)))
    refine ⟨lands.1, ?_⟩
    rw [lands.2]
    ring

/-! ### Text of regions -/

theorem adjustCodeText_reads :
    (adjustCodeText rgb hsl).InRange ∧ 90 ≤ luminance (adjustCodeText rgb hsl) := by
  obtain ⟨inRange, top, bottom⟩ := colour.described
  obtain ⟨above, under⟩ := luminance_mem rgb
  have channels := inRange_iff.mp colour.inRange
  unfold adjustCodeText
  split
  next light =>
    have light : 70 < hsl.lightness := by norm_num at light; exact light
    have target : greatest (200.0 : Rat) (luminance rgb) = max 200 (luminance rgb) := by
      norm_num [greatest_eq]
    rw [target]
    have fits : peak rgb * max 200 (luminance rgb) ≤ 255 * luminance rgb := by
      rcases le_or_gt 200 (luminance rgb) with bright | dim
      · rw [max_eq_right bright]
        exact fits_of_le colour le_rfl
      · rw [max_eq_left dim.le]
        rw [bottom] at above
        rw [top]
        rcases le_or_gt 95 hsl.lightness with white | shaded
        · linarith [(extremes_le inRange).2]
        · have close := close_of_pale inRange (colour.pale (by linarith) shaded)
          linarith [close.1, close.2.2]
    have low : 0 ≤ max 200 (luminance rgb) := le_max_of_le_left (by norm_num)
    have high : max 200 (luminance rgb) ≤ 255 := max_le (by norm_num) (by linarith)
    obtain ⟨lands, same⟩ := retarget_lands colour.inRange low high (.inr fits)
    refine ⟨lands, ?_⟩
    rw [same]
    exact le_max_of_le_left (by norm_num)
  next =>
    obtain ⟨start, whole⟩ := inRange.saturation
    apply ofHsl_reads
    · refine ⟨inRange.hue, ?_, by norm_num⟩
      norm_num [least_eq]
      linarith
    · norm_num

theorem adjustBlockquoteText_reads :
    (adjustBlockquoteText hsl).InRange ∧ 90 ≤ luminance (adjustBlockquoteText hsl) := by
  obtain ⟨inRange, _⟩ := colour.described
  obtain ⟨start, whole⟩ := inRange.saturation
  have lightness := clamp_mem (by norm_num : (75.0 : Rat) ≤ 85.0) (100.0 - hsl.lightness * 0.2)
  norm_num only at lightness
  apply ofHsl_reads
  · refine ⟨inRange.hue, ?_, ?_⟩
    all_goals
      norm_num only
      constructor <;> linarith
  · norm_num only
    exact lightness.1

theorem adjustTableText_reads :
    (adjustTableText hsl).InRange ∧ 90 ≤ luminance (adjustTableText hsl) := by
  obtain ⟨inRange, _⟩ := colour.described
  obtain ⟨start, whole⟩ := inRange.saturation
  have lightness := clamp_mem (by norm_num : (78.0 : Rat) ≤ 88.0) (100.0 - hsl.lightness * 0.22)
  norm_num only at lightness
  apply ofHsl_reads
  · refine ⟨inRange.hue, ?_, ?_⟩
    · dsimp only
      split <;> constructor <;> linarith
    · norm_num only
      constructor <;> linarith
  · norm_num only
    linarith

/-! ### Remapping -/

theorem remap_plainText {role : Role} (listed : role ∈ plainTexts) :
    remap {} role rgb = .ok (adjustText {} rgb hsl) := by
  simp only [remap, colour.read, bind, Except.bind, if_neg colour.dull]
  simp only [plainTexts, List.mem_cons, List.not_mem_nil, or_false] at listed
  rcases listed with rfl | rfl | rfl | rfl <;> rfl

theorem exists_remap_text {role : Role} (listed : role ∈ texts) :
    ∃ out, remap {} role rgb = .ok out ∧ out.InRange ∧ 90 ≤ luminance out := by
  rcases List.mem_append.mp listed with plain | region
  · refine ⟨_, remap_plainText colour plain, ?_⟩
    obtain ⟨inRange, lands⟩ := adjustText_lands colour
    refine ⟨inRange, ?_⟩
    split at lands
    next reads =>
      rw [lands]
      rcases reads with ⟨low, _⟩ | white
      · exact low
      · linarith
    next =>
      rw [lands]
      linarith [colour.described.1.lightness.1]
  · simp only [List.mem_cons, List.not_mem_nil, or_false] at region
    simp only [remap, colour.read, bind, Except.bind, if_neg colour.dull]
    rcases region with rfl | rfl | rfl
    · exact ⟨_, rfl, adjustTableText_reads colour⟩
    · exact ⟨_, rfl, adjustBlockquoteText_reads colour⟩
    · exact ⟨_, rfl, adjustCodeText_reads colour⟩

end dull

/-- Under the role that the colour property gets in a region that is no decoration, every colour in
range that is not vivid becomes a colour in range that reads. Under the roles of plain text it is
kept when it reads already and lands at the luminance its lightness puts it at when it does not, so
of two colours that are moved the lighter one never becomes the darker text. -/
theorem luminance_remap_text {selector : Text} (lit : regionOf selector ≠ .decorativeDark)
    (own : Option (Rgb Rat)) :
    (∃ role, classify {} selector "color".toList own = .ok role ∧
      ∀ rgb : Rgb Rat, rgb.InRange → ∃ hsl, toHsl rgb = .ok hsl ∧ (¬ isVibrant {} hsl →
        ∃ out, remap {} role rgb = .ok out ∧ out.InRange ∧ 90 ≤ luminance out)) ∧
    (∀ role ∈ plainTexts, ∀ {rgb : Rgb Rat} {hsl : Hsl Rat}, Dull rgb hsl →
      ∃ out, remap {} role rgb = .ok out ∧
        if Reads rgb then out = rgb else luminance out = 90 + 115 / 100 * hsl.lightness) ∧
    (∀ role ∈ plainTexts, ∀ role' ∈ plainTexts, ∀ {rgb rgb' : Rgb Rat} {hsl hsl' : Hsl Rat},
      Dull rgb hsl → Dull rgb' hsl' → ¬ Reads rgb → ¬ Reads rgb' →
      hsl.lightness ≤ hsl'.lightness →
      ∃ out out', remap {} role rgb = .ok out ∧ remap {} role' rgb' = .ok out' ∧
        luminance out ≤ luminance out') := by
  refine ⟨⟨_, classify_colour {} selector own, ?_⟩, ?_, ?_⟩
  · intro rgb inRange
    obtain ⟨hsl, read, _⟩ := exists_toHsl inRange
    refine ⟨hsl, read, fun dull => ?_⟩
    exact exists_remap_text ⟨inRange, read, dull⟩
      (textVariant_mem _ (regionOf_mem selector) lit (namesCode selector))
  · intro role listed rgb hsl colour
    exact ⟨_, remap_plainText colour listed, (adjustText_lands colour).2⟩
  · intro role listed role' listed' rgb rgb' hsl hsl' colour colour' unread unread' lighter
    have lands := (adjustText_lands colour).2
    have lands' := (adjustText_lands colour').2
    rw [if_neg unread] at lands
    rw [if_neg unread'] at lands'
    refine ⟨_, _, remap_plainText colour listed, remap_plainText colour' listed', ?_⟩
    rw [lands, lands']
    linarith

omit [Powers] in
theorem luminance_remap_text_black :
    letI : Powers := ⟨fun _ _ => none⟩
    regionOf "p".toList ≠ .decorativeDark ∧ Dull ⟨0, 0, 0⟩ ⟨0, 0, 0⟩ ∧ ¬ Reads ⟨0, 0, 0⟩ ∧
      ∃ out : Rgb Rat, remap {} .body ⟨0, 0, 0⟩ = .ok out ∧ luminance out = 90 := by
  let _ : Powers := ⟨fun _ _ => none⟩
  have lit : regionOf "p".toList ≠ .decorativeDark := by decide +kernel
  have black : Dull ⟨0, 0, 0⟩ ⟨0, 0, 0⟩ := by
    refine ⟨⟨by norm_num, by norm_num, by norm_num⟩, by decide +kernel, ?_⟩
    norm_num [isVibrant]
  have unread : ¬ Reads ⟨0, 0, 0⟩ := by norm_num [Reads, luminance_eq]
  obtain ⟨out, run, lands⟩ := (luminance_remap_text lit none).2.1 .body (by decide) black
  rw [if_neg unread] at lands
  refine ⟨lit, black, unread, out, run, ?_⟩
  rw [lands]
  norm_num

end ThemeCss.Theme
