import ThemeCss.Colour.Hex
import ThemeCss.Decimal.Read
import ThemeCss.Decimal.Write
import ThemeCss.Text.Alphanumeric
import ThemeCss.Text.Caseless
import ThemeCss.Text.Fragment

/-!
# Colour literals

A value may hold hexadecimal colours and calls of `rgb` and `hsl`, with or without a closing `a`, in
any case. A hexadecimal literal takes all the digits there are and ends at a word boundary; a call
starts at one and holds no parentheses. Arguments are separated by blanks or commas. The alpha comes
behind a slash or as the fourth argument; without one the colour is solid.
-/
namespace ThemeCss.Colour

/-- A colour with its alpha. -/
structure Painted where
  rgb : Rgb Float
  alpha : Float

/-- The digits of a hexadecimal literal. -/
def hexMatcher : Text.Matcher Text
  | _, '#' :: rest =>
    let digits := rest.takeWhile isHexDigit
    if digits.length ∈ [3, 4, 6, 8] ∧ ¬ Text.isWord? (rest.dropWhile isHexDigit).head? then
      some (digits, digits.length + 1)
    else none
  | _, _ => none

def isParenthesis (c : Char) : Bool := c == '(' || c == ')'

def dropLetterA (text : Text) : Text := (Text.dropKeyword? ['a'] text).getD text

/-- The arguments of a call of the named function. -/
def callMatcher (name : Text) : Text.Matcher Text := fun before text =>
  if Text.isWord? before then none
  else match (Text.dropKeyword? name text).map dropLetterA with
    | some ('(' :: rest) =>
      let body := Text.trimLeft rest
      -- Arguments hold no parentheses, so the first one has to close the call.
      match body.dropWhile (!isParenthesis ·) with
      | ')' :: after => some (body.takeWhile (!isParenthesis ·), text.length - after.length)
      | _ => none
    | _ => none

def rgbMatcher : Text.Matcher Text := callMatcher ['r', 'g', 'b']

def hslMatcher : Text.Matcher Text := callMatcher ['h', 's', 'l']

def parseNumber? (token : Text) : Option Float := (Decimal.parse? token).map Decimal.toFloat

def isPercentage (token : Text) : Bool := token.getLast? == some '%'

/-- The channels of a call and its alpha, when it has one. -/
def splitChannels (body : Text) : List Text × Option Text :=
  let separate (text : Text) := Text.words (text.map fun c => if c = ',' then ' ' else c)
  match Text.splitAtWord? ['/'] body with
  | some (channels, alpha) => (separate channels, some (Text.trim alpha))
  | none =>
    match separate body with
    | [a, b, c, alpha] => ([a, b, c], some alpha)
    | parts => (parts, none)

def parseAlpha? : Option Text → Option Float
  | none => some 1.0
  | some token => (parseNumber? token).map fun value =>
    Scalar.clamp 0.0 1.0 (if isPercentage (Text.trim token) then value / 100.0 else value)

def parseChannel? (token : Text) : Option Float :=
  (parseNumber? token).map fun value =>
    channel (if isPercentage token then value * 255.0 / 100.0 else value)

def parseRgb? (body : Text) : Option Painted :=
  match splitChannels body with
  | ([a, b, c], alpha) => do
    let red ← parseChannel? a
    let green ← parseChannel? b
    let blue ← parseChannel? c
    return ⟨⟨red, green, blue⟩, ← parseAlpha? alpha⟩
  | _ => none

def parseHsl? (body : Text) : Option Painted :=
  match splitChannels body with
  | ([a, b, c], alpha) => do
    let hue ← parseNumber? a
    let saturation ← parseNumber? b
    let lightness ← parseNumber? c
    return ⟨ofHsl ⟨hue, saturation, lightness⟩, ← parseAlpha? alpha⟩
  | _ => none

/-- The place and the colour of the first literal that can be read. -/
def firstRead? (matcher : Text.Matcher Text) (read : Text → Option (Rgb Float)) (value : Text) :
    Option (Nat × Rgb Float) :=
  (Text.hits matcher value).findSome? fun (place, body, _) => (read body).map (place, ·)

def readHex? (digits : Text) : Option (Rgb Float) := (ofHex? digits).map Rgb.toFloat

def earlier : Option (Nat × Rgb Float) → Option (Nat × Rgb Float) → Option (Nat × Rgb Float)
  | none, other => other
  | some first, none => some first
  | some first, some second => some (if second.1 < first.1 then second else first)

/-- The colour of the leftmost literal in a value. -/
def firstColour? (value : Text) : Option (Rgb Float) :=
  let hex := firstRead? hexMatcher readHex? value
  let rgb := firstRead? rgbMatcher (fun body => (parseRgb? body).map (·.rgb)) value
  let hsl := firstRead? hslMatcher (fun body => (parseHsl? body).map (·.rgb)) value
  ((earlier (earlier hex rgb) hsl).map (·.2))

/-- Writes a colour as a call; the alpha shows only when the colour is not solid. -/
def writeCall (painted : Painted) : Text :=
  let channels := Text.join [',', ' ']
    [Decimal.digits (byte painted.rgb.red), Decimal.digits (byte painted.rgb.green),
      Decimal.digits (byte painted.rgb.blue)]
  if painted.alpha < 1.0 then
    "rgba(".toList ++ channels ++ [',', ' '] ++ Decimal.short painted.alpha ++ [')']
  else "rgb(".toList ++ channels ++ [')']

end ThemeCss.Colour
