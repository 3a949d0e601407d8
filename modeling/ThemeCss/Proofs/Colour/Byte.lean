import ThemeCss.Proofs.Colour.White

/-!
# Bytes

A float that has a value is read from its bits as that value. So a clamped channel is rounded to a
whole number from 0 to 255, which two hexadecimal digits write.
-/
namespace ThemeCss

open Float.Model Float.Model.UnpackedFloat

namespace Double

/-! ### Bits -/

variable (bits : BitVec 64)

theorem toNat_unpackExponent :
    (@unpackExponent .binary64 bits).toNat = bits.toNat / 2 ^ 52 % 2 ^ 11 := by
  simp [unpackExponent, Nat.shiftRight_eq_div_pow]

theorem toNat_unpackMantissa : (@unpackMantissa .binary64 bits).toNat = bits.toNat % 2 ^ 52 := by
  simp [unpackMantissa]

theorem toNat_unpackSign : (@unpackSign .binary64 bits).toNat = bits.toNat / 2 ^ 63 % 2 := by
  delta unpackSign
  simp [Nat.shiftRight_eq_div_pow]

theorem lt_of_unpackSign (positive : Sign.ofBitVec (@unpackSign .binary64 bits) = .positive) :
    bits.toNat < 2 ^ 63 := by
  unfold Sign.ofBitVec at positive
  split at positive
  next zero =>
    have value := toNat_unpackSign bits
    have bound := bits.isLt
    rw [zero] at value
    simp only [BitVec.toNat_ofNat] at value
    omega
  next => cases positive

/-- The exponent of the smallest numbers is that of the smallest normal ones, which have a leading
bit that is not stored. -/
theorem fields_of_stands {v : Rat} (stands : Stands (UnpackedFloat.unpack .binary64 bits) v) :
    bits.toNat < 2 ^ 63 ∧ bits.toNat / 2 ^ 52 % 2 ^ 11 ≠ 2047 ∧
      v = ((if bits.toNat / 2 ^ 52 % 2 ^ 11 = 0 then bits.toNat % 2 ^ 52
          else 2 ^ 52 + bits.toNat % 2 ^ 52 : Nat) : Rat)
        * 2 ^ ((max (bits.toNat / 2 ^ 52 % 2 ^ 11) 1 : Nat) - 1075 : Int) := by
  have sign := lt_of_unpackSign bits
  rw [← toNat_unpackExponent bits, ← toNat_unpackMantissa bits]
  rcases unpack_cases bits with
    (same | ⟨_, same⟩) | ⟨zero, empty, same⟩ | ⟨zero, _, same⟩ | ⟨last, first, _, same⟩
  all_goals
    rw [same] at stands
    generalize Sign.ofBitVec (@unpackSign .binary64 bits) = s at stands sign
    cases stands
  · rw [zero, empty]
    exact ⟨sign rfl, by decide, by simp⟩
  · rw [zero]
    exact ⟨sign rfl, by decide, by norm_num⟩
  · have some : (@unpackExponent .binary64 bits).toNat ≠ 0 := fun none =>
      first (BitVec.eq_of_toNat_eq none)
    refine ⟨sign rfl, fun whole => last (BitVec.eq_of_toNat_eq whole), ?_⟩
    rw [if_neg some, max_eq_left (by omega)]

/-- What is read from the bits is the value. -/
theorem exists_read {x : Float} {v : Rat} (value : IsValue x v) :
    ∃ numerator denominator, Decimal.read x = .finite false numerator denominator ∧
      0 < denominator ∧ (numerator : Rat) / denominator = v := by
  have power (n : Nat) : Decimal.twos n = 2 ^ n := rfl
  obtain ⟨sign, finite, rfl⟩ := fields_of_stands x.toBits.toBitVec value
  rw [UInt64.toNat_toBitVec] at sign finite ⊢
  simp only [Decimal.read, power, if_neg finite, decide_eq_false (not_le.mpr sign)]
  generalize x.toBits.toNat / 2 ^ 52 % 2 ^ 11 = exponent
  generalize (if exponent = 0 then x.toBits.toNat % 2 ^ 52 else 2 ^ 52 + x.toBits.toNat % 2 ^ 52)
    = significand
  split
  next large =>
    refine ⟨_, _, rfl, by norm_num, ?_⟩
    have scale : ((max exponent 1 : Nat) - 1075 : Int) = (max exponent 1 - 1075 : Nat) := by omega
    rw [scale, zpow_natCast]
    push_cast
    ring
  next small =>
    refine ⟨_, _, rfl, by positivity, ?_⟩
    have scale : ((max exponent 1 : Nat) - 1075 : Int) = -(1075 - max exponent 1 : Nat) := by omega
    rw [scale, zpow_neg, zpow_natCast, div_eq_mul_inv]
    push_cast
    rfl

end Double

namespace Decimal

theorem roundQuotient_le {numerator denominator bound : Nat} (positive : 0 < denominator)
    (below : numerator ≤ bound * denominator) : roundQuotient numerator denominator ≤ bound := by
  have whole := Nat.div_add_mod numerator denominator
  have quotient : numerator / denominator ≤ bound := Nat.div_le_of_le_mul (by rwa [Nat.mul_comm])
  unfold roundQuotient
  dsimp only
  rcases quotient.eq_or_lt with full | part
  · -- Nothing is left to round.
    have rest : numerator % denominator = 0 := by
      rw [full, Nat.mul_comm] at whole
      omega
    rw [rest, if_pos (by omega)]
    exact quotient
  · split
    · exact quotient
    split
    · exact part
    · omega

end Decimal

namespace Colour

open Double

/-- What is rounded is finite, and not negative. -/
theorem exists_read_channel (x : Float) :
    ∃ numerator denominator, Decimal.read (channel x) = .finite false numerator denominator ∧
      0 < denominator ∧ numerator ≤ 255 * denominator := by
  obtain ⟨v, value, bound⟩ := exists_value_channel x
  obtain ⟨numerator, denominator, read, positive, same⟩ := exists_read value
  refine ⟨numerator, denominator, read, positive, ?_⟩
  have scaled : (numerator : Rat) ≤ 255 * denominator := by
    rw [← same] at bound
    exact (div_le_iff₀ (by exact_mod_cast positive)).mp bound
  exact_mod_cast scaled

theorem byte_le (x : Float) : byte x ≤ 255 := by
  obtain ⟨numerator, denominator, read, positive, below⟩ := exists_read_channel x
  simp only [byte, Decimal.roundFloat, read]
  exact Decimal.roundQuotient_le positive below

theorem isHexDigit_twoDigits {n : Nat} (bound : n ≤ 255) :
    ∀ c ∈ twoDigits n, isHexDigit c = true := by
  have digits : ∀ k < 16, isHexDigit (Nat.digitChar k) = true := by decide
  simp only [twoDigits, List.forall_mem_cons]
  exact ⟨digits _ (by omega), digits _ (by omega), by simp⟩

end Colour
end ThemeCss
