import ThemeCss.Text.Blank
import ThemeCss.Text.Digit

/-!
# Reading decimals

A number starts with an optional sign, then digits with an optional point among or before them, then
an optional exponent, which counts only when digits follow it. What comes behind the number is not
looked at, so a unit may follow. Digits of every script are read.
-/
namespace ThemeCss

/-- The number `mantissa * 10 ^ exponent` with a sign, which zero has too. -/
structure Decimal where
  negative : Bool
  mantissa : Nat
  exponent : Int
  deriving DecidableEq, Repr

namespace Decimal

def dropSign : Text → Bool × Text
  | '-' :: rest => (true, rest)
  | '+' :: rest => (false, rest)
  | text => (false, text)

/-- The exponent that follows a number; zero when none does. -/
def readExponent : Text → Int
  | c :: rest =>
    if c = 'e' ∨ c = 'E' then
      let (negative, rest) := dropSign rest
      let size := Text.digitsValue (rest.takeWhile Text.isDigit)
      if negative then -(size : Int) else size
    else 0
  | [] => 0

/-- Reads the number at the start of a text. -/
def readLeading? (text : Text) : Option Decimal :=
  let (negative, rest) := dropSign text
  let whole := rest.takeWhile Text.isDigit
  let (part, tail) :=
    match rest.dropWhile Text.isDigit with
    | '.' :: behind => (behind.takeWhile Text.isDigit, behind.dropWhile Text.isDigit)
    | behind => ([], behind)
  if whole.isEmpty ∧ part.isEmpty then none
  else
    some {
      negative
      mantissa := Text.digitsValue (whole ++ part)
      exponent := readExponent tail - part.length }

def parse? (token : Text) : Option Decimal := readLeading? (Text.trim token)

/-- The nearest float. The magnitude is settled first, so a huge exponent costs nothing. -/
def toFloat (decimal : Decimal) : Float :=
  let size : Int := (Nat.toDigits 10 decimal.mantissa).length + decimal.exponent
  let magnitude : Float :=
    if decimal.mantissa = 0 ∨ size < -400 then 0.0
    else if 400 < size then 1.0 / 0.0
    else Float.ofScientific decimal.mantissa (decide (decimal.exponent < 0)) decimal.exponent.natAbs
  if decimal.negative then -magnitude else magnitude

end Decimal
end ThemeCss
