import ThemeCss.Decimal.Rounding
import ThemeCss.Text.Basic

/-!
# Writing decimals

Two formats. The fixed one has a given number of places. The short one has six significant digits
without trailing zeros; it is positional for exponents from -4 to 5 and otherwise a coefficient with
a signed exponent of at least two digits.
-/
namespace ThemeCss.Decimal

def digits (n : Nat) : Text := Nat.toDigits 10 n

/-- Digits with zeros in front up to the given width. -/
def padded (width n : Nat) : Text :=
  let written := digits n
  List.replicate (width - written.length) '0' ++ written

def dropZeros (written : Text) : Text := (written.reverse.dropWhile (· == '0')).reverse

/-- A point and the digits behind it, or nothing when there are none. -/
def fraction (written : Text) : Text := if written.isEmpty then [] else '.' :: written

/-- A quotient with a fixed number of places. -/
def fixedQuotient (places numerator denominator : Nat) : Text :=
  let scaled := roundQuotient (numerator * tens places) denominator
  let behind := if places = 0 then [] else padded places (scaled % tens places)
  digits (scaled / tens places) ++ fraction behind

/-- A float with a fixed number of places. A number that rounds to zero has no sign. -/
def fixed (places : Nat) (x : Float) : Text :=
  match read x with
  | .undefined => "nan".toList
  | .infinite false => "inf".toList
  | .infinite true => "-inf".toList
  | .finite negative numerator denominator =>
    let isZero := roundQuotient (numerator * tens places) denominator = 0
    (if negative ∧ ¬ isZero then ['-'] else []) ++ fixedQuotient places numerator denominator

/-- `numerator / denominator` times a power of ten, as a quotient. -/
def scale (numerator denominator : Nat) : Int → Nat × Nat
  | .ofNat power => (numerator * tens power, denominator)
  | .negSucc power => (numerator, denominator * tens (power + 1))

/-- The exponent of the leading decimal digit of a positive quotient. -/
def leadingExponent (numerator denominator : Nat) : Int :=
  let guess : Int := (digits numerator).length - (digits denominator).length
  -- The difference of the lengths is right or one too large.
  let (scaled, unit) := scale numerator denominator (-guess)
  if scaled < unit then guess - 1 else guess

/-- A positive quotient in the short format. -/
def shortQuotient (numerator denominator : Nat) : Text :=
  let leading := leadingExponent numerator denominator
  let (scaled, unit) := scale numerator denominator (5 - leading)
  let rounded := roundQuotient scaled unit
  -- Rounding may carry into a seventh digit.
  let (coefficient, exponent) :=
    if rounded = tens 6 then (tens 5, leading + 1) else (rounded, leading)
  if exponent < -4 ∨ 6 ≤ exponent then
    let mark := if exponent < 0 then ['e', '-'] else ['e', '+']
    match digits coefficient with
    | [] => []
    | first :: others =>
      first :: fraction (dropZeros others) ++ mark ++ padded 2 exponent.natAbs
  else
    let places := (5 - exponent).toNat
    digits (coefficient / tens places) ++
      fraction (dropZeros (padded places (coefficient % tens places)))

/-- A float in the short format. -/
def short (x : Float) : Text :=
  match read x with
  | .undefined => "nan".toList
  | .infinite false => "inf".toList
  | .infinite true => "-inf".toList
  | .finite negative numerator denominator =>
    (if negative then ['-'] else []) ++
      (if numerator = 0 then ['0'] else shortQuotient numerator denominator)

end ThemeCss.Decimal
