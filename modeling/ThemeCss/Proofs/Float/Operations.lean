import Mathlib.Tactic.FieldSimp
import ThemeCss.Proofs.Float.Rounding

/-!
# Operations on doubles

Sums, differences, products and quotients of numbers that are not negative are the rounded exact
results, as long as these are not negative either. The order of the numbers is the order of what
they stand for.
-/
namespace ThemeCss.Double

open Float.Model Float.Model.UnpackedFloat

/-! ### Aligned numbers -/

theorem log2_shiftLeft {mantissa : Nat} (positive : 0 < mantissa) (shift : Nat) :
    (mantissa <<< shift).log2 = mantissa.log2 + shift := by
  have some : mantissa <<< shift ≠ 0 := by
    rw [Nat.shiftLeft_eq]
    positivity
  rw [Nat.log2_eq_iff some, Nat.shiftLeft_eq]
  have unit : 0 < 2 ^ shift := by positivity
  constructor
  · rw [pow_add]
    exact Nat.mul_le_mul_right _ (Nat.log2_self_le positive.ne')
  · rw [add_right_comm, pow_add]
    exact Nat.mul_lt_mul_of_pos_right Nat.lt_log2_self unit

/-- Going to a lower exponent changes nothing. -/
theorem shifted_eq (mantissa : Nat) (exponent : Int) (shift : Nat) :
    ((mantissa <<< shift : Nat) : Rat) * 2 ^ (exponent - shift) = mantissa * 2 ^ exponent := by
  have back := two_pow_add (exponent - shift) shift
  rw [sub_add_cancel] at back
  rw [back, Nat.shiftLeft_eq]
  push_cast
  ring

theorem decreased_eq (mantissa : Nat) {exponent lower : Int} (order : lower ≤ exponent) :
    (((decreaseExponent mantissa exponent lower).1 : Nat) : Rat) * 2 ^ lower
      = mantissa * 2 ^ exponent := by
  have shifted := shifted_eq mantissa exponent (exponent - lower).toNat
  have back : exponent - (exponent - lower).toNat = lower := by omega
  rwa [back] at shifted

theorem exists_round {mantissa : Nat} (positive : 0 < mantissa) (exponent : Int) :
    ∃ rounded, Stands (round .binary64 .positive mantissa exponent) rounded ∧
      Rounds (mantissa * 2 ^ exponent) rounded := by
  let shift :=
    (exponent - Format.binary64.targetExponent (totalExponent mantissa exponent)).toNat
  have low : exponent - shift
      ≤ max ((mantissa <<< shift).log2 + (exponent - shift) - 52) (-1074) := by
    rw [log2_shiftLeft positive]
    have amount : shift = (exponent - max (mantissa.log2 + exponent - 52) (-1074)).toNat := by
      simp only [shift, targetExponent_eq]
    omega
  have rounded :=
    exists_roundWithAccuracy (locates_exact (mantissa <<< shift) (exponent - shift)) low
  rwa [shifted_eq] at rounded

theorem exists_normalize {mantissa : Int} (start : 0 ≤ mantissa) (exponent : Int) :
    ∃ rounded, Stands (normalize .binary64 mantissa exponent .positive) rounded ∧
      Rounds (mantissa * 2 ^ exponent) rounded := by
  rcases start.eq_or_lt with rfl | positive
  · refine ⟨0, .zero, ?_⟩
    rw [Int.cast_zero, zero_mul]
    exact rounds_self 0
  · have above : compare mantissa 0 = .gt := compare_gt_iff_gt.mpr positive
    rw [UnpackedFloat.normalize, above]
    have rounded := exists_round (Int.lt_toNat.mpr positive) exponent
    have same : ((mantissa.toNat : Nat) : Rat) = mantissa := by
      exact_mod_cast Int.toNat_of_nonneg start
    rwa [same] at rounded

/-! ### Arithmetic -/

section arithmetic

variable {x y : UnpackedFloat} {v w : Rat} (first : Stands x v) (second : Stands y w)
include first second

theorem exists_add : ∃ rounded, Stands (add .binary64 x y) rounded ∧ Rounds (v + w) rounded := by
  cases first with
  | zero =>
    rw [zero_add]
    cases second with
    | zero => exact ⟨0, .zero, rounds_self 0⟩
    | finite positive canonical => exact ⟨_, .finite positive canonical, rounds_self _⟩
  | @finite m e positive canonical =>
    cases second with
    | zero =>
      rw [add_zero]
      exact ⟨_, .finite positive canonical, rounds_self _⟩
    | @finite n f =>
      have start : (0 : Int) ≤ (decreaseExponent m e (min e f)).1
          + (decreaseExponent n f (min e f)).1 := by positivity
      have rounded := exists_normalize start (min e f)
      push_cast at rounded
      rwa [add_mul, decreased_eq m (min_le_left e f), decreased_eq n (min_le_right e f)] at rounded

theorem exists_sub (order : w ≤ v) :
    ∃ rounded, Stands (sub .binary64 x y) rounded ∧ Rounds (v - w) rounded := by
  cases second with
  | zero =>
    rw [sub_zero]
    cases first with
    | zero => exact ⟨0, .zero, rounds_self 0⟩
    | finite positive canonical => exact ⟨_, .finite positive canonical, rounds_self _⟩
  | @finite n f positive =>
    cases first with
    | zero =>
      have above : (0 : Rat) < n * 2 ^ f := by positivity
      exact absurd order (not_le.mpr above)
    | @finite m e =>
      have aligned := order
      rw [← decreased_eq m (min_le_left e f), ← decreased_eq n (min_le_right e f)] at aligned
      have mantissas := le_of_mul_le_mul_right aligned (by positivity)
      have start : (0 : Int) ≤ (decreaseExponent m e (min e f)).1
          - (decreaseExponent n f (min e f)).1 := by
        rw [sub_nonneg]
        exact_mod_cast mantissas
      have rounded := exists_normalize start (min e f)
      push_cast at rounded
      rwa [sub_mul, decreased_eq m (min_le_left e f), decreased_eq n (min_le_right e f)] at rounded

theorem exists_mul : ∃ rounded, Stands (mul .binary64 x y) rounded ∧ Rounds (v * w) rounded := by
  cases first with
  | zero =>
    rw [zero_mul]
    cases second <;> exact ⟨0, .zero, rounds_self 0⟩
  | @finite m e positive canonical =>
    cases second with
    | zero =>
      rw [mul_zero]
      exact ⟨0, .zero, rounds_self 0⟩
    | @finite n f positive' canonical' =>
      -- A product with a full mantissa is full, and one without is below the least exponent.
      have low : e + f ≤ max ((m * n).log2 + (e + f) - 52) (-1074) := by
        have some : m * n ≠ 0 := by positivity
        by_cases full : 2 ^ 52 ≤ m ∨ 2 ^ 52 ≤ n
        · have long : 2 ^ 52 ≤ m * n := by
            rcases full with left | right
            · exact left.trans (Nat.le_mul_of_pos_right m positive')
            · exact right.trans (Nat.le_mul_of_pos_left n positive)
          have bits := (Nat.le_log2 some).mpr long
          omega
        · rw [not_or] at full
          have least := canonical.full.resolve_left full.1
          have least' := canonical'.full.resolve_left full.2
          omega
      have rounded := exists_roundWithAccuracy (locates_exact (m * n) (e + f)) low
      have same : ((m * n : Nat) : Rat) * 2 ^ (e + f) = m * 2 ^ e * (n * 2 ^ f) := by
        rw [zpow_add₀ (by norm_num)]
        push_cast
        ring
      rwa [same] at rounded

end arithmetic

/-- A quotient with its remainder locates the exact one. -/
theorem locates_quotient (dividend : Nat) {divisor : Nat} (positive : 0 < divisor)
    (exponent : Int) :
    Locates (.ofMantissaAndAccuracy (dividend / divisor)
      (accuracyOfFraction (dividend % divisor) divisor)) exponent
        ((dividend : Rat) / divisor * 2 ^ exponent) := by
  have unit : (0 : Rat) < 2 ^ exponent := by positivity
  have size : (0 : Rat) < divisor := by exact_mod_cast positive
  have whole :
      (dividend : Rat) = divisor * (dividend / divisor : Nat) + (dividend % divisor : Nat) := by
    exact_mod_cast (Nat.div_add_mod dividend divisor).symm
  have rest : ((dividend % divisor : Nat) : Rat) < divisor := by
    exact_mod_cast Nat.mod_lt dividend positive
  have start : (0 : Rat) ≤ (dividend % divisor : Nat) := Nat.cast_nonneg _
  have mantissa : (ExtendedMantissa.ofMantissaAndAccuracy (dividend / divisor)
      (accuracyOfFraction (dividend % divisor) divisor)).mantissa = dividend / divisor := by
    rcases accuracyOfFraction (dividend % divisor) divisor with _ | _ | _ | _ <;> rfl
  constructor
  · rw [mantissa]
    apply mul_le_mul_of_nonneg_right _ unit.le
    rw [le_div_iff₀ size]
    linarith
  · rw [mantissa]
    apply mul_lt_mul_of_pos_right _ unit
    rw [div_lt_iff₀ size]
    linarith
  · -- The quotient is exact only when nothing remains.
    rw [mantissa]
    intro same
    have quotient := mul_right_cancel₀ unit.ne' same
    rw [div_eq_iff size.ne'] at quotient
    have nothing : dividend % divisor = 0 := by
      have none : ((dividend % divisor : Nat) : Rat) = 0 := by linarith
      exact_mod_cast none
    rw [nothing]
    exact ⟨rfl, rfl⟩

/-- Quotients are taken at an exponent that leaves them a full mantissa. -/
theorem quotient_low {m n : Nat} (positive : 0 < m) (positive' : 0 < n) {e f exponent : Int}
    {shift : Nat} (reached : exponent = e - f - shift)
    (low : exponent ≤ max (m.log2 + 1 + e - (n.log2 + 1 + f) - 53) (-1074)) :
    exponent ≤ max ((m <<< shift / n).log2 + exponent - 52) (-1074) := by
  by_cases least : exponent ≤ -1074
  · omega
  have enough : 53 + n.log2 ≤ m.log2 + shift := by omega
  have long : 2 ^ 52 ≤ m <<< shift / n := by
    rw [Nat.le_div_iff_mul_le positive']
    calc 2 ^ 52 * n ≤ 2 ^ 52 * 2 ^ (n.log2 + 1) := Nat.mul_le_mul_left _ Nat.lt_log2_self.le
      _ = 2 ^ (53 + n.log2) := by
        rw [← pow_add]
        congr 1
        omega
      _ ≤ 2 ^ (m.log2 + shift) := Nat.pow_le_pow_right (by norm_num) enough
      _ ≤ m <<< shift := by
        rw [← log2_shiftLeft positive]
        apply Nat.log2_self_le
        rw [Nat.shiftLeft_eq]
        positivity
  have bits := (Nat.le_log2 (by omega)).mpr long
  omega

theorem exists_div {x y : UnpackedFloat} {v w : Rat} (first : Stands x v) (second : Stands y w)
    (divides : 0 < w) : ∃ rounded, Stands (div .binary64 x y) rounded ∧ Rounds (v / w) rounded := by
  cases second with
  | zero => exact absurd divides (lt_irrefl 0)
  | @finite n f positive' =>
    cases first with
    | zero =>
      rw [zero_div]
      exact ⟨0, .zero, rounds_self 0⟩
    | @finite m e positive =>
      let exponent :=
        min (e - f) (Format.binary64.targetExponent (totalExponent m e - totalExponent n f))
      let shift := (e - f - exponent).toNat
      have reached : exponent = e - f - shift := by omega
      have low : exponent ≤ max (m.log2 + 1 + e - (n.log2 + 1 + f) - 53) (-1074) := by
        have bits : Format.binary64.mantissaBits = 53 := rfl
        apply (min_le_right _ _).trans
        simp only [Format.targetExponent, totalExponent, bits, Format.minExponent]
        norm_num
      have rounded := exists_roundWithAccuracy
        (locates_quotient (m <<< shift) positive' exponent)
        (quotient_low positive positive' reached low)
      have same : ((m <<< shift : Nat) : Rat) / n * 2 ^ exponent = m * 2 ^ e / (n * 2 ^ f) := by
        have aligned := shifted_eq m (e - f) shift
        rw [← reached, zpow_sub₀ (by norm_num)] at aligned
        rw [div_mul_eq_mul_div, aligned]
        field_simp
      rwa [same] at rounded

/-! ### Order -/

/-- A full mantissa at a higher exponent is greater. -/
theorem Canonical.lt_of_exponent_lt {m n : Nat} {e f : Int} (first : Canonical m e)
    (second : Canonical n f) (order : e < f) : (m : Rat) * 2 ^ e < n * 2 ^ f := by
  have long : 2 ^ 52 ≤ n := by
    have least := first.least
    exact second.full.resolve_right (by omega)
  have longRat : (2 ^ 52 : Rat) ≤ n := by exact_mod_cast long
  have shortRat : (m : Rat) < 2 ^ 53 := by exact_mod_cast first.short
  have finer : (2 : Rat) ^ (e + 1) ≤ 2 ^ f := zpow_le_zpow_right₀ (by norm_num) order
  calc (m : Rat) * 2 ^ e < 2 ^ 53 * 2 ^ e := mul_lt_mul_of_pos_right shortRat (by positivity)
    _ = 2 ^ 52 * 2 ^ (e + 1) := by
      rw [zpow_add_one₀ (by norm_num)]
      ring
    _ ≤ 2 ^ 52 * 2 ^ f := mul_le_mul_of_nonneg_left finer (by positivity)
    _ ≤ n * 2 ^ f := mul_le_mul_of_nonneg_right longRat (by positivity)

theorem Canonical.compare_eq {m n : Nat} {e f : Int} (first : Canonical m e)
    (second : Canonical n f) :
    (compare e f).then (compare m n) = compare ((m : Rat) * 2 ^ e) (n * 2 ^ f) := by
  rcases lt_trichotomy e f with below | rfl | above
  · rw [compare_lt_iff_lt.mpr below, compare_lt_iff_lt.mpr (first.lt_of_exponent_lt second below)]
    rfl
  · have unit : (0 : Rat) < 2 ^ e := by positivity
    rw [compare_eq_iff_eq.mpr rfl, Ordering.eq_then]
    rcases lt_trichotomy m n with less | rfl | more
    · have scaled : (m : Rat) * 2 ^ e < n * 2 ^ e :=
        mul_lt_mul_of_pos_right (by exact_mod_cast less) unit
      rw [compare_lt_iff_lt.mpr less, compare_lt_iff_lt.mpr scaled]
    · rw [compare_eq_iff_eq.mpr rfl, compare_eq_iff_eq.mpr rfl]
    · have scaled : (n : Rat) * 2 ^ e < m * 2 ^ e :=
        mul_lt_mul_of_pos_right (by exact_mod_cast more) unit
      rw [compare_gt_iff_gt.mpr more, compare_gt_iff_gt.mpr scaled]
  · rw [compare_gt_iff_gt.mpr above, compare_gt_iff_gt.mpr (second.lt_of_exponent_lt first above)]
    rfl

/-- A value has one canonical form. -/
theorem Stands.eq_of_eq {x y : UnpackedFloat} {v w : Rat} (first : Stands x v) (second : Stands y w)
    (same : v = w) : x = y := by
  cases first with
  | zero =>
    cases second with
    | zero => rfl
    | @finite n f =>
      have above : (0 : Rat) < n * 2 ^ f := by positivity
      exact absurd same above.ne
  | @finite m e _ canonical =>
    cases second with
    | zero =>
      have above : (0 : Rat) < m * 2 ^ e := by positivity
      exact absurd same above.ne'
    | @finite n f _ canonical' =>
      obtain rfl : e = f := by
        rcases lt_trichotomy e f with below | equal | above
        · exact absurd same (canonical.lt_of_exponent_lt canonical' below).ne
        · exact equal
        · exact absurd same (canonical'.lt_of_exponent_lt canonical above).ne'
      have unit : (2 : Rat) ^ e ≠ 0 := by positivity
      obtain rfl : m = n := by exact_mod_cast mul_right_cancel₀ unit same
      rfl

theorem Stands.compare_eq {x y : UnpackedFloat} {v w : Rat} (first : Stands x v)
    (second : Stands y w) : x.compare y = some (compare v w) := by
  cases first with
  | zero =>
    cases second with
    | zero => rfl
    | @finite n f positive =>
      have above : (0 : Rat) < n * 2 ^ f := by positivity
      rw [compare_lt_iff_lt.mpr above]
      rfl
  | @finite m e positive canonical =>
    cases second with
    | zero =>
      have above : (0 : Rat) < m * 2 ^ e := by positivity
      rw [compare_gt_iff_gt.mpr above]
      rfl
    | finite _ canonical' =>
      rw [← canonical.compare_eq canonical']
      rfl

end ThemeCss.Double
