import ThemeCss.Colour.Scalar

/-!
# Colour models

A colour is given by red, green and blue up to 255, or by a hue in degrees with saturation and
lightness in percent. The two models describe the same colours, and each conversion undoes the
other. Luminance weighs the channels; retargeting scales a colour to a wanted luminance and pushes
what a clamped channel cannot hold into a free one.
-/
namespace ThemeCss

structure Rgb (α : Type) where
  red : α
  green : α
  blue : α
  deriving DecidableEq, Repr

structure Hsl (α : Type) where
  hue : α
  saturation : α
  lightness : α
  deriving DecidableEq, Repr

/-- Arithmetic without a result. -/
inductive ColourError where
  | divisionByZero
  | negativeBase
  deriving DecidableEq, Repr

def ColourError.message : ColourError → String
  | .divisionByZero => "float division by zero"
  | .negativeBase => "power of a negative number"

namespace Colour

open Scalar

variable {α : Type} [Scalar α]

def channel (x : α) : α := clamp 0.0 255.0 x

/-- Hue as a fraction of the circle, for channels in a range that is not empty. -/
def hueOf (rgb : Rgb α) (top range : α) : α :=
  let red := (top - rgb.red) / range
  let green := (top - rgb.green) / range
  let blue := (top - rgb.blue) / range
  let sector :=
    if rgb.red == top then blue - green
    else if rgb.green == top then 2.0 + red - blue
    else 4.0 + green - red
  modulo (sector / 6.0) 1.0

/-- Channels are clamped first. Above half lightness saturation divides by what the sum of the
extreme channels leaves of two, which rounding can make zero. -/
def toHsl (rgb : Rgb α) : Except ColourError (Hsl α) :=
  let unit : Rgb α :=
    ⟨channel rgb.red / 255.0, channel rgb.green / 255.0, channel rgb.blue / 255.0⟩
  let top := greatest (greatest unit.red unit.green) unit.blue
  let bottom := least (least unit.red unit.green) unit.blue
  let sum := top + bottom
  let range := top - bottom
  let lightness := sum / 2.0
  if bottom == top then .ok ⟨0.0, 0.0, lightness * 100.0⟩
  else
    let divisor := if lightness ≤ 0.5 then sum else 2.0 - sum
    if divisor == 0.0 then .error .divisionByZero
    else .ok ⟨hueOf unit top range * 360.0, range / divisor * 100.0, lightness * 100.0⟩

/-- The channel that stands at a fraction of the circle, between the extremes. -/
def ramp (bottom top turn : α) : α :=
  let turn := modulo turn 1.0
  if turn < 1.0 / 6.0 then bottom + (top - bottom) * turn * 6.0
  else if turn < 0.5 then top
  else if turn < 2.0 / 3.0 then bottom + (top - bottom) * (2.0 / 3.0 - turn) * 6.0
  else bottom

def ofHsl (hsl : Hsl α) : Rgb α :=
  let turn := modulo hsl.hue 360.0 / 360.0
  let lightness := hsl.lightness / 100.0
  let saturation := hsl.saturation / 100.0
  if saturation == 0.0 then ⟨lightness * 255.0, lightness * 255.0, lightness * 255.0⟩
  else
    let top :=
      if lightness ≤ 0.5 then lightness * (1.0 + saturation)
      else lightness + saturation - lightness * saturation
    let bottom := 2.0 * lightness - top
    ⟨ramp bottom top (turn + 1.0 / 3.0) * 255.0, ramp bottom top turn * 255.0,
      ramp bottom top (turn - 1.0 / 3.0) * 255.0⟩

/-- Perceived brightness up to 255. -/
def luminance (rgb : Rgb α) : α :=
  (299.0 * rgb.red + 587.0 * rgb.green + 114.0 * rgb.blue) / 1000.0

/-- Scales a colour to a luminance and settles the rest in a channel that is free to move. Black has
no ratio to keep and becomes grey. -/
def retarget (target : α) (rgb : Rgb α) : Rgb α :=
  let current := luminance rgb
  if current < 1e-3 then ⟨target, target, target⟩
  else
    let ratio := target / current
    let red := least 255.0 (rgb.red * ratio)
    let green := least 255.0 (rgb.green * ratio)
    let blue := least 255.0 (rgb.blue * ratio)
    -- The channel that is free to move takes what the clamped ones leave of the target.
    let settled : Rgb α :=
      if green == 0.0 || red == 255.0 || blue == 255.0 then
        ⟨red, (1000.0 * target - 299.0 * red - 114.0 * blue) / 587.0, blue⟩
      else if red == 0.0 then
        ⟨(1000.0 * target - 587.0 * green - 114.0 * blue) / 299.0, green, blue⟩
      else if blue == 0.0 || green == 255.0 then
        ⟨red, green, (1000.0 * target - 299.0 * red - 587.0 * green) / 114.0⟩
      else ⟨red, green, blue⟩
    ⟨channel settled.red, channel settled.green, channel settled.blue⟩

/-- Inverts lightness into a band and damps all but the faintest saturation. -/
def invertInto (hsl : Hsl α) (low high damping : α) : Rgb α :=
  let lightness := high - hsl.lightness / 100.0 * (high - low)
  let saturation :=
    if (5.0 : α) < hsl.saturation then hsl.saturation * damping else hsl.saturation
  ofHsl ⟨hsl.hue, saturation, lightness⟩

end Colour
end ThemeCss
