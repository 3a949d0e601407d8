import ThemeCss.Colour.Scalar

/-!
# Exact scalars

The rationals read colour arithmetic without rounding. They are not closed under powers, so what a
power stands for is a parameter.
-/
namespace ThemeCss.Scalar

/-- The remainder left by the greatest whole multiple that is not beyond the dividend. -/
def rationalModulo (x y : Rat) : Rat :=
  Rat.sub x (Rat.mul y (Rat.ofInt (Rat.floor (Rat.div x y))))

@[reducible]
def exact (power? : Rat → Rat → Option Rat) : Scalar Rat where
  toAdd := ⟨Rat.add⟩
  toSub := ⟨Rat.sub⟩
  toMul := ⟨Rat.mul⟩
  toDiv := ⟨Rat.div⟩
  toLT := Rat.instLT
  toLE := Rat.instLE
  toBEq := instBEqOfDecidableEq
  toOfScientific := Rat.instOfScientific
  decidableLt := Rat.instDecidableLt
  decidableLe := Rat.instDecidableLe
  modulo := rationalModulo
  power? := power?

end ThemeCss.Scalar
