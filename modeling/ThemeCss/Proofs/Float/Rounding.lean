import Mathlib.Algebra.Order.Field.Power
import Mathlib.Algebra.Order.Field.Rat
import Mathlib.Tactic.Linarith
import Mathlib.Tactic.NormNum
import Mathlib.Tactic.Positivity
import Mathlib.Tactic.Ring

/-!
# Rounding

A double that is not negative stands for a point of a grid of rationals: 53 bits above a least
exponent. An operation rounds its exact result, and rounding never passes a point of the grid. This
is all that is used of it here: to the nearest point or not, it keeps every bound that is a point of
the grid.
-/
namespace ThemeCss.Double

open Float.Model Float.Model.UnpackedFloat

/-! ### The grid -/

def OnGrid (point : Rat) : Prop :=
  ∃ (mantissa : Nat) (exponent : Int), mantissa < 2 ^ 53 ∧ -1074 ≤ exponent ∧
    point = mantissa * 2 ^ exponent

/-- What rounding an exact number may give. -/
structure Rounds (exact rounded : Rat) : Prop where
  ge : ∀ {point}, OnGrid point → point ≤ exact → point ≤ rounded
  le : ∀ {point}, OnGrid point → exact ≤ point → rounded ≤ point

theorem rounds_self (exact : Rat) : Rounds exact exact :=
  ⟨fun _ below => below, fun _ above => above⟩

theorem Rounds.eq {exact rounded : Rat} (rounds : Rounds exact rounded) (onGrid : OnGrid exact) :
    rounded = exact :=
  le_antisymm (rounds.le onGrid le_rfl) (rounds.ge onGrid le_rfl)

/-- A mantissa that is as long as its exponent allows. -/
structure Canonical (mantissa : Nat) (exponent : Int) : Prop where
  short : mantissa < 2 ^ 53
  least : -1074 ≤ exponent
  full : 2 ^ 52 ≤ mantissa ∨ exponent = -1074

theorem Canonical.onGrid {mantissa : Nat} {exponent : Int}
    (canonical : Canonical mantissa exponent) : OnGrid (mantissa * 2 ^ exponent) :=
  ⟨mantissa, exponent, canonical.short, canonical.least, rfl⟩

theorem two_pow_add (exponent : Int) (shift : Nat) :
    (2 : Rat) ^ (exponent + shift) = (2 ^ shift : Nat) * 2 ^ exponent := by
  rw [zpow_add₀ (by norm_num), zpow_natCast]
  push_cast
  ring

/-- The grid has no point between a full mantissa and the next one. -/
theorem le_of_lt_next (mantissa : Nat) (exponent : Int)
    (full : 2 ^ 52 ≤ mantissa ∨ exponent = -1074) {point : Rat} (onGrid : OnGrid point)
    (below : point < (mantissa + 1) * 2 ^ exponent) : point ≤ mantissa * 2 ^ exponent := by
  obtain ⟨m, e, short, least, rfl⟩ := onGrid
  have unit : (0 : Rat) < 2 ^ exponent := by positivity
  rcases le_or_gt exponent e with coarse | fine
  · -- The point is a whole multiple of the unit.
    obtain ⟨shift, rfl⟩ := Int.le.dest coarse
    rw [two_pow_add, ← mul_assoc] at below ⊢
    have whole : m * 2 ^ shift < mantissa + 1 := by
      have scaled := lt_of_mul_lt_mul_right below unit.le
      exact_mod_cast scaled
    have within : ((m * 2 ^ shift : Nat) : Rat) ≤ mantissa := by
      exact_mod_cast Nat.lt_succ_iff.mp whole
    push_cast at within ⊢
    exact mul_le_mul_of_nonneg_right within unit.le
  · -- A finer point is below every full mantissa.
    have long : 2 ^ 52 ≤ mantissa := full.resolve_right (by omega)
    have longRat : (2 ^ 52 : Rat) ≤ mantissa := by exact_mod_cast long
    have shortRat : (m : Rat) ≤ 2 ^ 53 := by exact_mod_cast short.le
    have finer : (2 : Rat) ^ (e + 1) ≤ 2 ^ exponent := zpow_le_zpow_right₀ (by norm_num) fine
    calc (m : Rat) * 2 ^ e ≤ 2 ^ 53 * 2 ^ e := mul_le_mul_of_nonneg_right shortRat (by positivity)
      _ = 2 ^ 52 * 2 ^ (e + 1) := by
        rw [zpow_add_one₀ (by norm_num)]
        ring
      _ ≤ 2 ^ 52 * 2 ^ exponent := mul_le_mul_of_nonneg_left finer (by positivity)
      _ ≤ mantissa * 2 ^ exponent := mul_le_mul_of_nonneg_right longRat unit.le

/-! ### Shifting -/

/-- The residual bits add one at most, and nothing when they are clear. -/
theorem roundedMantissa_mem (extended : ExtendedMantissa) :
    extended.roundedMantissa = extended.mantissa ∨
      extended.roundedMantissa = extended.mantissa + 1 ∧
        ¬ (extended.roundBit = false ∧ extended.stickyBit = false) := by
  obtain ⟨mantissa, round, sticky⟩ := extended
  cases round <;> cases sticky <;>
    simp [ExtendedMantissa.roundedMantissa, ExtendedMantissa.accuracy, Accuracy.roundToNearestEven]
  omega

/-- A mantissa with its residual bits finds the exact number: between the mantissa and the next one,
and both bits clear when it is the mantissa. -/
structure Locates (extended : ExtendedMantissa) (exponent : Int) (exact : Rat) : Prop where
  ge : extended.mantissa * 2 ^ exponent ≤ exact
  lt : exact < (extended.mantissa + 1) * 2 ^ exponent
  bits : exact = extended.mantissa * 2 ^ exponent →
    extended.roundBit = false ∧ extended.stickyBit = false

theorem locates_exact (mantissa : Nat) (exponent : Int) :
    Locates (.ofMantissaAndAccuracy mantissa .exact) exponent (mantissa * 2 ^ exponent) := by
  have unit : (0 : Rat) < 2 ^ exponent := by positivity
  refine ⟨le_rfl, ?_, fun _ => ⟨rfl, rfl⟩⟩
  exact mul_lt_mul_of_pos_right (lt_add_one _) unit

namespace Locates

variable {extended : ExtendedMantissa} {exponent : Int} {exact : Rat}
  (located : Locates extended exponent exact)
include located

theorem shiftRightOne : Locates extended.shiftRightOne (exponent + 1) exact := by
  have unit : (0 : Rat) < 2 ^ exponent := by positivity
  have halves : (extended.mantissa : Rat)
      = 2 * (extended.mantissa / 2 : Nat) + (extended.mantissa % 2 : Nat) := by
    exact_mod_cast (Nat.div_add_mod extended.mantissa 2).symm
  have odd : ((extended.mantissa % 2 : Nat) : Rat) ≤ 1 := by
    exact_mod_cast Nat.lt_succ_iff.mp (Nat.mod_lt _ two_pos)
  have start : (0 : Rat) ≤ (extended.mantissa % 2 : Nat) := Nat.cast_nonneg _
  obtain ⟨ge, lt, bits⟩ := located
  rw [halves] at ge lt bits
  constructor
  · rw [zpow_add_one₀ (by norm_num)]
    simp only [ExtendedMantissa.shiftRightOne]
    nlinarith
  · rw [zpow_add_one₀ (by norm_num)]
    simp only [ExtendedMantissa.shiftRightOne]
    nlinarith
  · intro same
    rw [zpow_add_one₀ (by norm_num)] at same
    simp only [ExtendedMantissa.shiftRightOne] at same ⊢
    -- The bit that falls out has to be clear.
    have even : extended.mantissa % 2 = 0 := by
      have small : ((extended.mantissa % 2 : Nat) : Rat) * 2 ^ exponent ≤ 0 * 2 ^ exponent := by
        linarith
      have nothing := le_of_mul_le_mul_right small unit
      exact_mod_cast le_antisymm nothing start
    obtain ⟨round, sticky⟩ := bits (by rw [same, even]; push_cast; ring)
    simp [even, round, sticky]

theorem shiftRight (shift : Nat) : Locates (extended >>> shift) (exponent + shift) exact := by
  induction shift with
  | zero =>
    have none : extended >>> 0 = extended := rfl
    simpa [none] using located
  | succ shift ih =>
    have next := ih.shiftRightOne
    rw [add_assoc] at next
    exact_mod_cast next

/-- A full mantissa with residual bits is rounded without passing a point of the grid. -/
theorem rounds (full : 2 ^ 52 ≤ extended.mantissa ∨ exponent = -1074) :
    Rounds exact (extended.roundedMantissa * 2 ^ exponent) := by
  rcases roundedMantissa_mem extended with same | ⟨next, inexact⟩
  · rw [same]
    constructor
    · intro point onGrid below
      exact le_of_lt_next _ _ full onGrid (below.trans_lt located.lt)
    · intro point _ above
      exact located.ge.trans above
  · have above : extended.mantissa * 2 ^ exponent < exact :=
      lt_of_le_of_ne located.ge fun same => inexact (located.bits same.symm)
    rw [next]
    push_cast
    constructor
    · intro point _ below
      exact below.trans located.lt.le
    · intro point onGrid beyond
      by_contra passed
      exact absurd (le_of_lt_next _ _ full onGrid (not_le.mp passed)) (by linarith)

end Locates

/-! ### Rounding to the grid -/

/-- A number that is zero or finite without a sign, in its canonical form. -/
inductive Stands : UnpackedFloat → Rat → Prop where
  | zero : Stands (.zero .positive) 0
  | finite {mantissa : Nat} {exponent : Int} (positive : 0 < mantissa) :
      Canonical mantissa exponent →
        Stands (.finite .positive mantissa exponent positive) (mantissa * 2 ^ exponent)

theorem targetExponent_eq (mantissa : Nat) (exponent : Int) :
    Format.binary64.targetExponent (totalExponent mantissa exponent)
      = max (mantissa.log2 + exponent - 52) (-1074) := by
  have bits : Format.binary64.mantissaBits = 53 := rfl
  simp only [Format.targetExponent, totalExponent, bits, Format.minExponent]
  norm_num
  omega

/-- A mantissa short enough for the format is not shifted. -/
theorem shift_of_short {mantissa : Nat} {exponent : Int} (short : mantissa < 2 ^ 53)
    (least : -1074 ≤ exponent) :
    shiftToTargetExponent .binary64 mantissa exponent .exact
      = (⟨mantissa, false, false⟩, exponent) := by
  have bits : mantissa.log2 ≤ 52 := by
    rcases eq_or_ne mantissa 0 with rfl | some
    · simp
    · exact Nat.lt_succ_iff.mp ((Nat.log2_lt some).mpr short)
  have still : (max ((mantissa.log2 : Int) + exponent - 52) (-1074) - exponent).toNat = 0 := by
      omega
  unfold shiftToTargetExponent
  simp [targetExponent_eq, shiftToExponent, still, HShiftRight.hShiftRight, Nat.repeat,
    ExtendedMantissa.ofMantissaAndAccuracy]

/-- A mantissa that rounding made a bit too long is shifted once. -/
theorem shift_of_carried {exponent : Int} (least : -1074 ≤ exponent) :
    shiftToTargetExponent .binary64 (2 ^ 53) exponent .exact
      = (⟨2 ^ 52, false, false⟩, exponent + 1) := by
  have once : (max (((2 ^ 53 : Nat).log2 : Int) + exponent - 52) (-1074) - exponent).toNat = 1 := by
    rw [Nat.log2_two_pow]
    omega
  unfold shiftToTargetExponent
  simp only [targetExponent_eq, shiftToExponent, once]
  simp [HShiftRight.hShiftRight, Nat.repeat, ExtendedMantissa.ofMantissaAndAccuracy,
    ExtendedMantissa.shiftRightOne]

/-- The first shift makes the mantissa as long as the exponent allows. -/
theorem shifted_full {mantissa : Nat} {exponent : Int} {shift : Nat}
    (reached : exponent + shift = max (mantissa.log2 + exponent - 52) (-1074)) :
    mantissa / 2 ^ shift < 2 ^ 53 ∧
      (2 ^ 52 ≤ mantissa / 2 ^ shift ∨ exponent + shift = -1074) := by
  have unit : 0 < 2 ^ shift := by positivity
  constructor
  · rw [Nat.div_lt_iff_lt_mul unit, ← pow_add]
    apply Nat.lt_log2_self.trans_le
    exact Nat.pow_le_pow_right (by norm_num) (by omega)
  · by_cases least : exponent + shift = -1074
    · exact .inr least
    · left
      have bits : mantissa.log2 = 52 + shift := by omega
      have some : mantissa ≠ 0 := by
        rintro rfl
        simp at bits
        omega
      rw [Nat.le_div_iff_mul_le unit, ← pow_add, ← bits]
      exact Nat.log2_self_le some

/-- What the first shift and its rounding leave is brought to canonical form. -/
theorem stands_settled {mantissa : Nat} {exponent : Int} (least : -1074 ≤ exponent)
    (bound : mantissa ≤ 2 ^ 53) (full : 2 ^ 52 ≤ mantissa ∨ exponent = -1074) :
    Stands
      (let last := shiftToTargetExponent .binary64 mantissa exponent .exact
      if none : last.1.mantissa = 0 then .zero .positive
      else .finite .positive last.1.mantissa last.2 (Nat.pos_of_ne_zero none))
      (mantissa * 2 ^ exponent) := by
  rcases bound.lt_or_eq with short | rfl
  · rw [shift_of_short short least]
    dsimp only
    by_cases none : mantissa = 0
    · rw [dif_pos none, none, Nat.cast_zero, zero_mul]
      exact .zero
    · rw [dif_neg none]
      exact .finite (Nat.pos_of_ne_zero none) ⟨short, least, full⟩
  · rw [shift_of_carried least]
    have same : ((2 ^ 53 : Nat) : Rat) * 2 ^ exponent = (2 ^ 52 : Nat) * 2 ^ (exponent + 1) := by
      rw [zpow_add_one₀ (by norm_num)]
      push_cast
      ring
    rw [same]
    exact .finite (by norm_num) ⟨by norm_num, by omega, .inl le_rfl⟩

theorem mantissa_shiftRight (extended : ExtendedMantissa) (shift : Nat) :
    (extended >>> shift).mantissa = extended.mantissa / 2 ^ shift := by
  induction shift with
  | zero => exact (Nat.div_one _).symm
  | succ shift ih =>
    change (extended >>> shift).mantissa / 2 = _
    rw [ih, Nat.div_div_eq_div_mul, pow_succ]

/-- A located number is rounded to a number in canonical form. -/
theorem exists_roundWithAccuracy {mantissa : Nat} {exponent : Int} {accuracy : Accuracy}
    {exact : Rat} (located : Locates (.ofMantissaAndAccuracy mantissa accuracy) exponent exact)
    (low : exponent ≤ max (mantissa.log2 + exponent - 52) (-1074)) :
    ∃ rounded, Stands (roundWithAccuracy .binary64 .positive mantissa exponent accuracy) rounded ∧
      Rounds exact rounded := by
  obtain ⟨shift, reached⟩ := Int.le.dest low
  have amount : (Format.binary64.targetExponent (totalExponent mantissa exponent)
      - exponent).toNat = shift := by
    rw [targetExponent_eq, ← reached]
    omega
  have start : (ExtendedMantissa.ofMantissaAndAccuracy mantissa accuracy >>> shift).mantissa
      = mantissa / 2 ^ shift := by
    rw [mantissa_shiftRight]
    rcases accuracy with _ | _ | _ | _ <;> rfl
  obtain ⟨short, full⟩ := shifted_full reached
  rw [← start] at short full
  have shifted := located.shiftRight shift
  refine ⟨_, ?_, shifted.rounds full⟩
  have first : shiftToTargetExponent .binary64 mantissa exponent accuracy
      = (ExtendedMantissa.ofMantissaAndAccuracy mantissa accuracy >>> shift, exponent + shift) := by
    simp only [shiftToTargetExponent, shiftToExponent, amount]
  rw [roundWithAccuracy, first]
  -- Rounding adds one at most.
  have near :=
      roundedMantissa_mem (ExtendedMantissa.ofMantissaAndAccuracy mantissa accuracy >>> shift)
  exact stands_settled (by omega) (by omega) (by omega)

end ThemeCss.Double
