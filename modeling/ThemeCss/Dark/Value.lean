import ThemeCss.Colour.Literal
import ThemeCss.Dark.Sealed
import ThemeCss.Theme.Remap

/-!
# Converting values

Every colour literal outside the sealed parts of a value is remapped: first the hexadecimal ones,
then calls of `rgb`, then calls of `hsl`. A literal that cannot be read stays. What a pass writes is
seen by the later ones. A value that is one of the colour keywords stays as it is.
-/
namespace ThemeCss.Dark

open Colour Theme

def keywords : List Text :=
  ["currentcolor", "inherit", "transparent", "initial", "unset", "none"].map String.toList

/-- The alpha digits of a literal, doubled when it has one digit per channel. -/
def alphaDigits (digits : Text) : Text :=
  match digits with
  | [_, _, _, a] => [a.toLower, a.toLower]
  | [_, _, _, _, _, _, a, b] => [a.toLower, b.toLower]
  | _ => []

def convertHexLiteral (tuning : Tuning Float) (role : Role) (digits covered : Text) :
    Except ColourError Text :=
  match readHex? digits with
  | none => .ok covered
  | some rgb => do return writeHex (← remap tuning role rgb) ++ alphaDigits digits

def convertCall (tuning : Tuning Float) (role : Role) (read : Text → Option Painted)
    (body covered : Text) : Except ColourError Text :=
  match read body with
  | none => .ok covered
  | some painted => do return writeCall { painted with rgb := ← remap tuning role painted.rgb }

/-- Converts the literals of a text without sealed parts. -/
def convertPlain (tuning : Tuning Float) (role : Role) (text : Text) : Except ColourError Text := do
  -- Each pass reads what the one before it has written.
  let text ← Text.tryRewrite hexMatcher (convertHexLiteral tuning role) text
  let text ← Text.tryRewrite rgbMatcher (convertCall tuning role parseRgb?) text
  Text.tryRewrite hslMatcher (convertCall tuning role parseHsl?) text

def convertSegment (tuning : Tuning Float) (role : Role) : Segment → Except ColourError Text
  | .plain content => convertPlain tuning role content
  | .sealed content => .ok content

def convertValue (tuning : Tuning Float) (role : Role) (value : Text) : Except ColourError Text :=
  if keywords.any (Text.isKeyword · (Text.trim value)) then .ok value
  else do return (← (segments value).mapM (convertSegment tuning role)).flatten

/-- Converts a text that is one hexadecimal colour; any other stays. -/
def convertHex (tuning : Tuning Float) (role : Role) (text : Text) : Except ColourError Text :=
  match ofHex? text with
  | none => .ok text
  | some rgb => do return writeHex (← remap tuning role (Rgb.toFloat rgb))

end ThemeCss.Dark
