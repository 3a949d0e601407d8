import ThemeCss.Decimal.Rounding

/-!
# Scalars

Colour arithmetic is written once for every type of numbers that adds, multiplies, divides and
compares. Floats run it; rationals read it exactly. The smaller and the greater of two numbers keep
the first unless the second is strictly beyond it, so a number that compares with nothing gives way
only when it comes second.
-/
namespace ThemeCss

class Scalar (α : Type) extends Add α, Sub α, Mul α, Div α, LT α, LE α, BEq α, OfScientific α where
  decidableLt : DecidableRel (fun x y : α => x < y)
  decidableLe : DecidableRel (fun x y : α => x ≤ y)
  /-- The remainder with the sign of the divisor. -/
  modulo : α → α → α
  /-- A power, when it is a real number. -/
  power? : α → α → Option α

namespace Scalar

attribute [reducible, instance] Scalar.decidableLt Scalar.decidableLe

variable {α : Type} [Scalar α]

def least (x y : α) : α := if y < x then y else x

def greatest (x y : α) : α := if x < y then y else x

def clamp (low high x : α) : α := greatest low (least high x)

/-- The remainder of floats is exact; one with the wrong sign is moved by the divisor. -/
def floatModulo (x y : Float) : Float :=
  match Decimal.read x, Decimal.read y with
  | .finite negative n d, .finite divisorNegative m e =>
    let dividend := n * e
    let divisor := m * d
    if divisor = 0 then 0.0 / 0.0
    else
      let magnitude :=
        if dividend < divisor then x.abs
        else Float.ofNat (dividend % divisor) / Float.ofNat (d * e)
      if magnitude == 0.0 then (if divisorNegative then -0.0 else 0.0)
      else
        let remainder := if negative then -magnitude else magnitude
        if negative = divisorNegative then remainder else remainder + y
  | .finite negative _ _, .infinite divisorNegative =>
    if x == 0.0 then (if divisorNegative then -0.0 else 0.0)
    else if negative = divisorNegative then x else y
  | _, _ => 0.0 / 0.0

/-- A negative number has no real power of a fraction. -/
def floatPower? (x y : Float) : Option Float :=
  if x < 0.0 && x.isFinite then none else some (x.pow y)

instance : Scalar Float where
  decidableLt := fun x y => inferInstanceAs (Decidable (x < y))
  decidableLe := fun x y => inferInstanceAs (Decidable (x ≤ y))
  modulo := floatModulo
  power? := floatPower?

end Scalar
end ThemeCss
