import ThemeCss.Text.Basic

/-!
# Characters of markup

The characters of XML are the three blank controls, and from the space on all but the two last
places of the first plane. Only these may be set in a document. What is read may hold others, and is
written back with them.
-/
namespace ThemeCss.Markup

def isAllowed (c : Char) : Bool :=
  c == '\t' || c == '\n' || c == '\r' ||
    (0x20 ≤ c.toNat && c.toNat != 0xFFFE && c.toNat != 0xFFFF)

/-- The character written in place of what is none. -/
def replacement : Char := '\uFFFD'

/-- The characters that numbers from 128 to 159 refer to: printable ones of a code page, and
themselves in the five places that it leaves free. -/
def codePage : List Nat := [
  0x20AC, 0x81, 0x201A, 0x192, 0x201E, 0x2026, 0x2020, 0x2021, 0x2C6, 0x2030, 0x160, 0x2039, 0x152,
  0x8D, 0x17D, 0x8F, 0x90, 0x2018, 0x2019, 0x201C, 0x201D, 0x2022, 0x2013, 0x2014, 0x2DC, 0x2122,
  0x161, 0x203A, 0x153, 0x9D, 0x17E, 0x178]

/-- The character a numeric reference stands for. Zero, surrogates and numbers beyond the last
character stand for the replacement character. -/
def charOfNumber (n : Nat) : Char :=
  if n = 0 ∨ ¬ n.isValidChar then replacement
  else if 0x80 ≤ n ∧ n < 0xA0 then Char.ofNat (codePage.getD (n - 0x80) n)
  else Char.ofNat n

end ThemeCss.Markup
