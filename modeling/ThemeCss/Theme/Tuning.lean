import ThemeCss.Colour.Model
import ThemeCss.Theme.Role

/-!
# Tuning

The constants of the dark theme, fitted by eye. Each surface role has a band of lightness and a
factor that damps saturation; the rest are the thresholds at which a colour is treated as vivid,
near black or near white.
-/
namespace ThemeCss

structure Band (α : Type) where
  low : α
  high : α
  damping : α

structure Tuning (α : Type) [Scalar α] where
  vibrantSaturation : α := 15.0
  vibrantBand : α × α := (35.0, 55.0)
  vibrantFactor : α := 0.85
  nearBlackLuminance : α := 20.0
  anchorLightness : α := 15.0
  anchorSaturation : α := 8.0
  anchoredLightness : α := 22.0
  surface : Rgb α := ⟨25.0, 25.0, 25.0⟩
  textBand : α × α := (65.0, 180.0)
  nearWhiteLuminance : α := 220.0
  cacheLimit : Int := 200

variable {α : Type} [Scalar α]

/-- Text roles of regions have no band of their own. -/
def Role.band? : Role → Option (Band α)
  | .body => some ⟨10.0, 10.0, 0.0⟩
  | .heading => some ⟨10.0, 10.0, 0.0⟩
  | .background => some ⟨12.0, 18.0, 0.5⟩
  | .table => some ⟨10.0, 24.0, 0.6⟩
  | .blockquote => some ⟨14.0, 22.0, 0.7⟩
  | .code => some ⟨10.0, 20.0, 0.5⟩
  | .selection => some ⟨45.0, 65.0, 0.6⟩
  | .decorativeDark => some ⟨10.0, 15.0, 0.0⟩
  | .vibrantProtected => some ⟨35.0, 55.0, 1.0⟩
  | .other => some ⟨12.0, 20.0, 0.7⟩
  | _ => none

/-- The band of a role; a plain background's where it has none. -/
def Role.band (role : Role) : Band α := role.band?.getD ⟨12.0, 18.0, 0.5⟩

/-- The first line of every converted sheet. -/
def conversionMarker : Text := "/* pressroom-dark-converted */".toList

end ThemeCss
