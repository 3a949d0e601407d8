import ThemeCss.Colour.Model
import ThemeCss.Text.Blank

/-!
# Hexadecimal colours

A hexadecimal colour has three or four digits, one per channel, or six or eight, two per channel;
the last of four channels is the alpha, which the six-digit normal form drops.
-/
namespace ThemeCss.Colour

def hexDigit? (c : Char) : Option Nat :=
  if '0' ≤ c ∧ c ≤ '9' then some (c.toNat - '0'.toNat)
  else if 'a' ≤ c ∧ c ≤ 'f' then some (c.toNat - 'a'.toNat + 10)
  else if 'A' ≤ c ∧ c ≤ 'F' then some (c.toNat - 'A'.toNat + 10)
  else none

def isHexDigit (c : Char) : Bool := (hexDigit? c).isSome

/-- Six digits in lower case. -/
def sixDigits? (digits : Text) : Option Text :=
  if !digits.all isHexDigit then none
  else if digits.length = 3 ∨ digits.length = 4 then
    some ((digits.take 3).flatMap fun c => [c.toLower, c.toLower])
  else if digits.length = 6 ∨ digits.length = 8 then some ((digits.take 6).map Char.toLower)
  else none

/-- The digits of a colour written with or without its mark. -/
def normalDigits? (value : Text) : Option Text :=
  match Text.trim value with
  | '#' :: digits => sixDigits? digits
  | digits => sixDigits? digits

def normalHex? (value : Text) : Option Text := (normalDigits? value).map ('#' :: ·)

def pairValue (high low : Char) : Nat :=
  16 * (hexDigit? high).getD 0 + (hexDigit? low).getD 0

def ofHex? (value : Text) : Option (Rgb Nat) :=
  match normalDigits? value with
  | some [a, b, c, d, e, f] => some ⟨pairValue a b, pairValue c d, pairValue e f⟩
  | _ => none

/-- A channel's nearest whole number from 0 to 255. -/
def byte (x : Float) : Nat := Decimal.roundFloat (channel x)

def Rgb.toFloat (rgb : Rgb Nat) : Rgb Float :=
  ⟨Float.ofNat rgb.red, Float.ofNat rgb.green, Float.ofNat rgb.blue⟩

def twoDigits (n : Nat) : Text := [Nat.digitChar (n / 16), Nat.digitChar (n % 16)]

def writeHex (rgb : Rgb Float) : Text :=
  '#' :: (twoDigits (byte rgb.red) ++ twoDigits (byte rgb.green) ++ twoDigits (byte rgb.blue))

end ThemeCss.Colour
