import ThemeCss.Text.Basic

/-!
# Addresses

Attributes that hold an address are written without the blanks before it. Visible ASCII characters
stand as they are, a percent sign included; every other character is written byte by byte, each byte
as a percent sign and two digits.
-/
namespace ThemeCss.Markup

/-- Whether an attribute of an element is for an address; the name of an anchor counts as one. -/
def namesAddress (element name : Text) : Bool :=
  name = "href".toList || name = "src".toList || name = "action".toList ||
    (name = "name".toList && element = ['a'])

def capitalDigit (n : Nat) : Char := (Nat.digitChar n).toUpper

def encodeByte (byte : UInt8) : Text :=
  ['%', capitalDigit (byte.toNat / 16), capitalDigit (byte.toNat % 16)]

def isVisible (c : Char) : Bool := '!' ≤ c && c ≤ '~'

def encodeChar (c : Char) : Text :=
  if isVisible c then [c] else (String.utf8EncodeChar c).flatMap encodeByte

/-- Blanks before an address are none of it. -/
def leadsAddress (c : Char) : Bool := c == ' ' || c == '\t' || c == '\n' || c == '\r'

def encodeAddress (text : Text) : Text := (text.dropWhile leadsAddress).flatMap encodeChar

end ThemeCss.Markup
