/-!
# Rounding

A quotient is rounded to the nearest whole number, and from halfway to the even one. A finite float
is a quotient of whole numbers with a sign, so rounding a float to any number of places is exact
arithmetic on that quotient.
-/
namespace ThemeCss.Decimal

/-- The nearest whole number to `numerator / denominator`, a half going to the even neighbour. -/
def roundQuotient (numerator denominator : Nat) : Nat :=
  let quotient := numerator / denominator
  let twice := 2 * (numerator % denominator)
  if twice < denominator then quotient
  else if denominator < twice then quotient + 1
  else quotient + quotient % 2

def tens (n : Nat) : Nat := Nat.pow 10 n

def twos (n : Nat) : Nat := Nat.pow 2 n

/-- A float as a sign and a quotient, when it is finite. -/
inductive Reading where
  | undefined
  | infinite (negative : Bool)
  | finite (negative : Bool) (numerator denominator : Nat)
  deriving DecidableEq, Repr

/-- Reads a float's sign, exponent and significand; subnormal ones have no hidden bit. -/
def read (x : Float) : Reading :=
  let bits := x.toBits.toNat
  let negative := decide (twos 63 ≤ bits)
  let exponent := bits / twos 52 % twos 11
  let fraction := bits % twos 52
  if exponent = 2047 then
    if fraction = 0 then .infinite negative else .undefined
  else
    -- Subnormal floats have no hidden bit and the exponent of the smallest normal ones.
    let significand := if exponent = 0 then fraction else twos 52 + fraction
    let power := max exponent 1
    if 1075 ≤ power then .finite negative (significand * twos (power - 1075)) 1
    else .finite negative significand (twos (1075 - power))

/-- The nearest whole number to a float that is not negative. -/
def roundFloat (x : Float) : Nat :=
  match read x with
  | .finite false numerator denominator => roundQuotient numerator denominator
  | _ => 0

end ThemeCss.Decimal
