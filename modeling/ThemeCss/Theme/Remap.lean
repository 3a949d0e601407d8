import ThemeCss.Theme.Tuning

/-!
# Remapping colours

A vivid colour of middling lightness keeps its hue and saturation in every role and moves into the
vivid band. Any other colour goes by its role: surfaces are inverted into their band, decorations
stay dark, and text moves to a luminance that reads on the dark surface.
-/
namespace ThemeCss.Theme

open Scalar Colour

variable {α : Type} [Scalar α]

/-- Near-white tables fall off towards the light end of their band; dark saturated surfaces share
one lightness. -/
def adjustSurface (tuning : Tuning α) (role : Role) (hsl : Hsl α) : Except ColourError (Rgb α) :=
  let band : Band α := role.band
  if role = .table ∧ (85.0 : α) < hsl.lightness then
    match power? ((100.0 - hsl.lightness) / 15.0) (0.7 : α) with
    | none => .error .negativeBase
    | some factor =>
      .ok <| ofHsl ⟨hsl.hue, hsl.saturation * band.damping,
        band.low + factor * (band.high - band.low)⟩
  else if hsl.lightness < tuning.anchorLightness ∧ tuning.anchorSaturation < hsl.saturation then
    .ok (ofHsl ⟨hsl.hue, hsl.saturation, tuning.anchoredLightness⟩)
  else .ok (invertInto hsl band.low band.high band.damping)

def adjustDecoration (hsl : Hsl α) : Rgb α :=
  let band : Band α := Role.decorativeDark.band
  ofHsl ⟨hsl.hue, hsl.saturation * 0.5, clamp band.low band.high hsl.lightness⟩

def adjustBlockquoteText (hsl : Hsl α) : Rgb α :=
  ofHsl ⟨hsl.hue, hsl.saturation * 0.4, clamp 75.0 85.0 (100.0 - hsl.lightness * 0.2)⟩

def adjustTableText (hsl : Hsl α) : Rgb α :=
  let saturation :=
    if (15.0 : α) < hsl.saturation then hsl.saturation * 0.8 else hsl.saturation * 0.4
  ofHsl ⟨hsl.hue, saturation, clamp 78.0 88.0 (100.0 - hsl.lightness * 0.22)⟩

def adjustCodeText (rgb : Rgb α) (hsl : Hsl α) : Rgb α :=
  if (70.0 : α) < hsl.lightness then retarget (greatest 200.0 (luminance rgb)) rgb
  else ofHsl ⟨hsl.hue, least 100.0 (hsl.saturation * 1.1 + 5.0), 78.0⟩

/-- Text that reads already is kept; other text lands where its lightness puts it in the band. -/
def adjustText (tuning : Tuning α) (rgb : Rgb α) (hsl : Hsl α) : Rgb α :=
  let current := luminance rgb
  if tuning.nearWhiteLuminance < current then rgb
  else
    let ground := luminance tuning.surface
    let low := ground + tuning.textBand.1
    let high := ground + tuning.textBand.2
    if low ≤ current ∧ current ≤ high then rgb
    else retarget (low + hsl.lightness / 100.0 * (high - low)) rgb

/-- Saturated, and neither near black nor near white. -/
def isVibrant (tuning : Tuning α) (hsl : Hsl α) : Prop :=
  tuning.vibrantSaturation < hsl.saturation ∧ (15.0 : α) < hsl.lightness ∧
    hsl.lightness < (95.0 : α)

instance (tuning : Tuning α) (hsl : Hsl α) : Decidable (isVibrant tuning hsl) :=
  inferInstanceAs (Decidable (_ ∧ _ ∧ _))

def remap (tuning : Tuning α) (role : Role) (rgb : Rgb α) : Except ColourError (Rgb α) := do
  let hsl ← toHsl rgb
  if isVibrant tuning hsl then
    let (low, high) := tuning.vibrantBand
    return ofHsl ⟨hsl.hue, hsl.saturation, clamp low high (hsl.lightness * tuning.vibrantFactor)⟩
  else
    match role with
    | .decorativeDark => return adjustDecoration hsl
    | .tableText => return adjustTableText hsl
    | .blockquoteText => return adjustBlockquoteText hsl
    | .codeText => return adjustCodeText rgb hsl
    | .heading | .body | .other | .selectionText => return adjustText tuning rgb hsl
    | .background | .table | .blockquote | .code | .vibrantProtected | .selection =>
      adjustSurface tuning role hsl

end ThemeCss.Theme
