import Mathlib.Algebra.Order.Floor.Ring
import Mathlib.Data.Rat.Floor
import Mathlib.Tactic.Linarith
import Mathlib.Tactic.NormNum
import Mathlib.Tactic.Ring
import ThemeCss.Colour.Exact
import ThemeCss.Colour.Model

/-!
# Exact arithmetic

Read exactly, the operations of scalars are those of the rationals: the smaller and the greater of
two numbers, a clamped number, the remainder on a circle. What a power stands for stays open.
-/
namespace ThemeCss

/-- What powers of rationals stand for. -/
class Powers where
  power? : Rat → Rat → Option Rat

instance [Powers] : Scalar Rat := Scalar.exact Powers.power?

namespace Scalar

variable [Powers]

theorem least_eq (x y : Rat) : least x y = min x y := by
  unfold least
  split
  next below =>
    have below : y < x := below
    exact (min_eq_right below.le).symm
  next above =>
    have above : ¬ y < x := above
    exact (min_eq_left (not_lt.mp above)).symm

theorem greatest_eq (x y : Rat) : greatest x y = max x y := by
  unfold greatest
  split
  next above =>
    have above : x < y := above
    exact (max_eq_right above.le).symm
  next below =>
    have below : ¬ x < y := below
    exact (max_eq_left (not_lt.mp below)).symm

theorem clamp_eq (low high x : Rat) : clamp low high x = max low (min high x) := by
  rw [clamp, greatest_eq, least_eq]

theorem clamp_mem {low high : Rat} (order : low ≤ high) (x : Rat) :
    low ≤ clamp low high x ∧ clamp low high x ≤ high := by
  rw [clamp_eq]
  exact ⟨le_max_left .., max_le order (min_le_left ..)⟩

theorem modulo_of_mem {x y : Rat} (start : 0 ≤ x) (below : x < y) : modulo x y = x := by
  have positive : 0 < y := start.trans_lt below
  have quotient : ⌊x / y⌋ = 0 := by
    rw [Int.floor_eq_zero_iff]
    exact ⟨div_nonneg start positive.le, (div_lt_one positive).mpr below⟩
  change x - y * ((⌊x / y⌋ : Int) : Rat) = x
  rw [quotient]
  simp

theorem modulo_one (x : Rat) : modulo x 1 = Int.fract x := by
  change x - 1 * ((⌊x / 1⌋ : Int) : Rat) = Int.fract x
  rw [div_one, one_mul, Int.fract]

end Scalar
end ThemeCss
