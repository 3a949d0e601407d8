import ThemeCss.Proofs.Float.Operations

/-!
# Values of doubles

A float that is a number and not negative has a value, and the operations of floats give the rounded
exact results of values as long as these stay small. A float between two values has one too.
-/
namespace ThemeCss.Double

open Float.Model Float.Model.UnpackedFloat

/-! ### Packing -/

theorem unpackSign_packComponents {format : Format} {sign exponent mantissa} :
    unpackSign (packComponents format sign exponent mantissa) = sign.toBitVec := by
  ext i inside
  obtain rfl : i = 0 := by omega
  delta unpackSign
  simp [packComponents, BitVec.getLsbD_append, BitVec.getElem_append]

theorem finite_eq {sign sign' : Sign} {mantissa mantissa' : Nat} {exponent exponent' : Int}
    {positive : 0 < mantissa} {positive' : 0 < mantissa'} (signs : sign = sign')
    (mantissas : mantissa = mantissa') (exponents : exponent = exponent') :
    UnpackedFloat.finite sign mantissa exponent positive
      = .finite sign' mantissa' exponent' positive' := by
  subst signs mantissas exponents
  rfl

/-- A pattern of bits is read as no number or infinity, as zero, or as a number without or with a
leading bit. -/
theorem unpack_cases (bits : BitVec 64) :
    (UnpackedFloat.unpack .binary64 bits = .notANumber ∨
      ∃ sign, UnpackedFloat.unpack .binary64 bits = .infinity sign) ∨
    (@unpackExponent .binary64 bits = 0#11 ∧ @unpackMantissa .binary64 bits = 0#52 ∧
      UnpackedFloat.unpack .binary64 bits = .zero (.ofBitVec (@unpackSign .binary64 bits))) ∨
    (@unpackExponent .binary64 bits = 0#11 ∧ ∃ positive, UnpackedFloat.unpack .binary64 bits
      = .finite (.ofBitVec (@unpackSign .binary64 bits))
        (@unpackMantissa .binary64 bits).toNat (-1074) positive) ∨
    (@unpackExponent .binary64 bits ≠ -1#11 ∧ @unpackExponent .binary64 bits ≠ 0#11 ∧
      ∃ positive, UnpackedFloat.unpack .binary64 bits
        = .finite (.ofBitVec (@unpackSign .binary64 bits))
          (2 ^ 52 + (@unpackMantissa .binary64 bits).toNat)
          ((@unpackExponent .binary64 bits).toNat - 1075) positive) := by
  have bias : (Format.binary64.exponentBias : Int) = 1023 := by decide
  have short := (@unpackMantissa .binary64 bits).isLt
  unfold UnpackedFloat.unpack
  dsimp only
  -- The last exponent is that of what is no finite number, the first that of zero and subnormals.
  by_cases last : @unpackExponent .binary64 bits = -1#11
  · rw [if_pos last]
    by_cases empty : @unpackMantissa .binary64 bits = 0#52
    · rw [if_pos empty]
      exact .inl (.inr ⟨_, rfl⟩)
    · rw [if_neg empty]
      exact .inl (.inl rfl)
  rw [if_neg last]
  by_cases first : @unpackExponent .binary64 bits = 0#11
  · rw [if_pos first]
    by_cases empty : @unpackMantissa .binary64 bits = 0#52
    · rw [dif_pos empty]
      exact .inr (.inl ⟨first, empty, rfl⟩)
    · rw [dif_neg empty]
      have positive : 0 < (@unpackMantissa .binary64 bits).toNat := by
        rw [Nat.pos_iff_ne_zero]
        exact fun none => empty (BitVec.eq_of_toNat_eq none)
      refine .inr (.inr (.inl ⟨first, positive, finite_eq rfl rfl ?_⟩))
      rw [first, bias]
      rfl
  rw [if_neg first]
  refine .inr (.inr (.inr ⟨last, first, by omega, finite_eq rfl ?_ ?_⟩))
  · rw [BitVec.toNat_append]
    exact (Nat.shiftLeft_add_eq_or_of_lt short 1).symm
  · rw [bias]
    rfl

/-- What is read from a pattern of bits is in canonical form. -/
theorem canonical_unpack {bits : BitVec 64} {mantissa : Nat} {exponent : Int}
    {positive : 0 < mantissa}
    (read : UnpackedFloat.unpack .binary64 bits = .finite .positive mantissa exponent positive) :
    Canonical mantissa exponent := by
  have short : (@unpackMantissa .binary64 bits).toNat < 2 ^ 52 := BitVec.isLt _
  rcases unpack_cases bits with (odd | ⟨_, odd⟩) | ⟨_, _, odd⟩ | ⟨_, _, same⟩ | ⟨_, first, _, same⟩
  -- No number, infinity and zero are not finite in this sense.
  iterate 3
    rw [read] at odd
    cases odd
  · rw [read] at same
    injection same with _ mantissas exponents
    exact ⟨by omega, by omega, .inr exponents⟩
  · rw [read] at same
    injection same with _ mantissas exponents
    have some : (@unpackExponent .binary64 bits).toNat ≠ 0 :=
      fun none => first (BitVec.eq_of_toNat_eq none)
    exact ⟨by omega, by omega, .inl (by omega)⟩

theorem unpack_normal {mantissa biased : Nat} (long : 2 ^ 52 ≤ mantissa) (short : mantissa < 2 ^ 53)
    (low : 0 < biased) (high : biased < 2047) :
    UnpackedFloat.unpack .binary64
        (packComponents .binary64 .positive (BitVec.ofNat 11 biased) (BitVec.ofNat 52 mantissa))
      = .finite .positive mantissa (biased - 1075) (by omega) := by
  have exponent : (BitVec.ofNat 11 biased).toNat = biased := by
    rw [BitVec.toNat_ofNat]
    exact Nat.mod_eq_of_lt (by omega)
  have notLast : BitVec.ofNat 11 biased ≠ -1#11 := by
    intro same
    have values := congrArg BitVec.toNat same
    rw [exponent] at values
    exact absurd values (by simpa using high.ne)
  have notFirst : BitVec.ofNat 11 biased ≠ 0#11 := by
    intro same
    have values := congrArg BitVec.toNat same
    rw [exponent] at values
    exact absurd values low.ne'
  -- Packing drops the leading bit and unpacking puts it back.
  have whole : (1#1 ++ BitVec.ofNat 52 mantissa).toNat = mantissa := by
    have below : mantissa % 2 ^ 52 < 2 ^ 52 := Nat.mod_lt _ (by norm_num)
    rw [BitVec.toNat_append, BitVec.toNat_ofNat]
    change 1 <<< 52 ||| mantissa % 2 ^ 52 = mantissa
    rw [← Nat.shiftLeft_add_eq_or_of_lt below]
    omega
  have bias : (Format.binary64.exponentBias : Int) = 1023 := by decide
  unfold UnpackedFloat.unpack
  dsimp only
  rw [if_neg (by rwa [unpackExponent_packComponents]),
    if_neg (by rwa [unpackExponent_packComponents])]
  refine finite_eq ?_ ?_ ?_
  · rw [unpackSign_packComponents]
    rfl
  · rwa [unpackMantissa_packComponents]
  · rw [unpackExponent_packComponents, exponent, bias]
    rfl

theorem unpack_subnormal {mantissa : Nat} (positive : 0 < mantissa) (short : mantissa < 2 ^ 52) :
    UnpackedFloat.unpack .binary64
        (packComponents .binary64 .positive 0#11 (BitVec.ofNat 52 mantissa))
      = .finite .positive mantissa (-1074) positive := by
  have whole : (BitVec.ofNat 52 mantissa).toNat = mantissa := by
    rw [BitVec.toNat_ofNat]
    exact Nat.mod_eq_of_lt short
  have some : BitVec.ofNat 52 mantissa ≠ 0#52 := by
    intro same
    have values := congrArg BitVec.toNat same
    rw [whole] at values
    exact absurd values positive.ne'
  have bias : (Format.binary64.exponentBias : Int) = 1023 := by decide
  have notLast : (0#11) ≠ -1#11 := by decide
  unfold UnpackedFloat.unpack
  dsimp only
  rw [if_neg (by rwa [unpackExponent_packComponents]), if_pos unpackExponent_packComponents,
    dif_neg (by rwa [unpackMantissa_packComponents])]
  refine finite_eq ?_ ?_ ?_
  · rw [unpackSign_packComponents]
    rfl
  · rwa [unpackMantissa_packComponents]
  · rw [unpackExponent_packComponents, bias]
    rfl

/-- A number that is not too large is packed with or without a leading bit. -/
theorem pack_finite {mantissa : Nat} {exponent : Int} (positive : 0 < mantissa)
    (fits : (exponent + 1075).toNat < 2047) :
    UnpackedFloat.pack .binary64 (.finite .positive mantissa exponent positive)
      = if mantissa.log2 + 1 = Format.binary64.mantissaBits then
          packComponents .binary64 .positive (BitVec.ofNat 11 (exponent + 1075).toNat)
            (BitVec.ofNat 52 mantissa)
        else packComponents .binary64 .positive 0#11 (BitVec.ofNat 52 mantissa) := by
  have biased : (exponent + Format.binary64.exponentBias
      + Format.binary64.mantissaBitsWithoutImplicit).toNat = (exponent + 1075).toNat := by
    have bias : (Format.binary64.exponentBias : Int) = 1023 := by decide
    rw [bias, add_assoc]
    rfl
  have finite : ¬ 2 ^ 11 ≤ (exponent + 1075).toNat + 1 := by omega
  rw [← biased] at finite ⊢
  exact if_neg finite

/-- A number in canonical form that is not too large is read back from its bits. -/
theorem Stands.unpack_pack {x : UnpackedFloat} {v : Rat} (stands : Stands x v) (small : v ≤ 1024) :
    (Float.Model.pack x).unpack = x := by
  cases stands with
  | zero => rfl
  | @finite m e positive canonical =>
    have high : e ≤ 10 := by
      by_contra above
      have long : 2 ^ 52 ≤ m := canonical.full.resolve_right (by omega)
      have longRat : (1 : Rat) ≤ m := by exact_mod_cast (by omega : 1 ≤ m)
      have scale : (2 : Rat) ^ (11 : Int) ≤ 2 ^ e := zpow_le_zpow_right₀ (by norm_num) (by omega)
      have large : (1 : Rat) * 2 ^ (11 : Int) ≤ m * 2 ^ e :=
        mul_le_mul longRat scale (by positivity) (by positivity)
      norm_num at large
      linarith
    obtain ⟨short, least, full⟩ := canonical
    change UnpackedFloat.unpack .binary64 (UnpackedFloat.pack .binary64 _) = _
    rw [pack_finite positive (by omega)]
    -- A full mantissa is packed without its leading bit, a shorter one at the lowest exponent.
    by_cases long : 2 ^ 52 ≤ m
    · have bits : m.log2 = 52 := (Nat.log2_eq_iff positive.ne').mpr ⟨long, short⟩
      have normal : m.log2 + 1 = Format.binary64.mantissaBits := by
        rw [bits]
        rfl
      have exponent : ((e + 1075).toNat : Int) - 1075 = e := by omega
      rw [if_pos normal]
      have low : 0 < (e + 1075).toNat := by omega
      exact (unpack_normal long short low (by omega)).trans (finite_eq rfl rfl exponent)
    · have subnormal : ¬ m.log2 + 1 = Format.binary64.mantissaBits := by
        have bits : m.log2 < 52 := (Nat.log2_lt positive.ne').mpr (not_le.mp long)
        change ¬ m.log2 + 1 = 53
        omega
      obtain rfl : e = -1074 := full.resolve_left long
      rw [if_neg subnormal]
      exact unpack_subnormal positive (not_le.mp long)

/-! ### Floats -/

/-- The float is a number that is not negative, and has the value. -/
def IsValue (x : Float) (value : Rat) : Prop := Stands x.toModel.unpack value

theorem Stands.isValue {x : UnpackedFloat} {v : Rat} (stands : Stands x v) (small : v ≤ 1024) :
    IsValue (.ofModel (.pack x)) v := by
  unfold IsValue
  rwa [stands.unpack_pack small]

theorem Stands.onGrid {x : UnpackedFloat} {v : Rat} (stands : Stands x v) : OnGrid v := by
  cases stands with
  | zero => exact ⟨0, 0, by norm_num, by norm_num, by norm_num⟩
  | finite _ canonical => exact canonical.onGrid

theorem Stands.nonneg {x : UnpackedFloat} {v : Rat} (stands : Stands x v) : 0 ≤ v := by
  cases stands with
  | zero => exact le_rfl
  | finite => positivity

/-- What a float computes is a matter of its value. -/
theorem IsValue.unpack_eq {x y : Float} {v : Rat} (first : IsValue x v) (second : IsValue y v) :
    x.toModel.unpack = y.toModel.unpack :=
  Stands.eq_of_eq first second rfl

theorem onGrid_large : OnGrid 1024 := ⟨1024, 0, by norm_num, by norm_num, by norm_num⟩

section operations

variable {x y : Float} {v w : Rat} (first : IsValue x v) (second : IsValue y w)
include first second

theorem exists_value_add (small : v + w ≤ 1024) :
    ∃ rounded, IsValue (x + y) rounded ∧ Rounds (v + w) rounded := by
  obtain ⟨rounded, stands, rounds⟩ := exists_add first second
  exact ⟨rounded, stands.isValue (rounds.le onGrid_large small), rounds⟩

theorem exists_value_sub (order : w ≤ v) (small : v - w ≤ 1024) :
    ∃ rounded, IsValue (x - y) rounded ∧ Rounds (v - w) rounded := by
  obtain ⟨rounded, stands, rounds⟩ := exists_sub first second order
  exact ⟨rounded, stands.isValue (rounds.le onGrid_large small), rounds⟩

theorem exists_value_mul (small : v * w ≤ 1024) :
    ∃ rounded, IsValue (x * y) rounded ∧ Rounds (v * w) rounded := by
  obtain ⟨rounded, stands, rounds⟩ := exists_mul first second
  exact ⟨rounded, stands.isValue (rounds.le onGrid_large small), rounds⟩

theorem exists_value_div (divides : 0 < w) (small : v / w ≤ 1024) :
    ∃ rounded, IsValue (x / y) rounded ∧ Rounds (v / w) rounded := by
  obtain ⟨rounded, stands, rounds⟩ := exists_div first second divides
  exact ⟨rounded, stands.isValue (rounds.le onGrid_large small), rounds⟩

theorem lt_iff_value : x < y ↔ v < w := by
  have unpacked : x < y ↔ x.toModel.unpack.lt y.toModel.unpack = true := decide_eq_true_iff
  rw [unpacked, UnpackedFloat.lt, Stands.compare_eq first second, ← compare_lt_iff_lt]
  cases compare v w <;> decide

theorem le_iff_value : x ≤ y ↔ v ≤ w := by
  have unpacked : x ≤ y ↔ x.toModel.unpack.le y.toModel.unpack = true := decide_eq_true_iff
  rw [unpacked, UnpackedFloat.le, Stands.compare_eq first second, ← compare_le_iff_le]
  cases compare v w <;> decide

theorem beq_iff_value : (x == y) = true ↔ v = w := by
  have unpacked : (x == y) = (x.toModel.unpack.compare y.toModel.unpack == some .eq) := rfl
  rw [unpacked, Stands.compare_eq first second,
    ← compare_eq_iff_eq (a := v) (b := w)]
  cases compare v w <;> decide

end operations

theorem IsValue.unique {x : Float} {v w : Rat} (first : IsValue x v) (second : IsValue x w) :
    v = w :=
  (beq_iff_value first second).mp ((beq_iff_value first first).mpr rfl)

section congruence

variable {x x' y y' : Float} {v w : Rat} (first : IsValue x v) (first' : IsValue x' v)
  (second : IsValue y w) (second' : IsValue y' w)
include first first' second second'

theorem add_eq_of_value : x + y = x' + y' := by
  change Float.ofModel (.pack (add .binary64 x.toModel.unpack y.toModel.unpack))
    = .ofModel (.pack (add .binary64 x'.toModel.unpack y'.toModel.unpack))
  rw [first.unpack_eq first', second.unpack_eq second']

theorem div_eq_of_value : x / y = x' / y' := by
  change Float.ofModel (.pack (div .binary64 x.toModel.unpack y.toModel.unpack))
    = .ofModel (.pack (div .binary64 x'.toModel.unpack y'.toModel.unpack))
  rw [first.unpack_eq first', second.unpack_eq second']

end congruence

theorem isValue_of_unpack {x : Float} {value : Rat} (mantissa : Nat) (exponent : Int)
    (positive : 0 < mantissa)
    (read : x.toModel.unpack = .finite .positive mantissa exponent positive)
    (same : mantissa * 2 ^ exponent = value) : IsValue x value := by
  unfold IsValue
  rw [read, ← same]
  exact .finite positive (canonical_unpack read)

/-- A float between two values is a value. -/
theorem exists_value_of_between {x y z : Float} {v w : Rat} (low : IsValue y v) (high : IsValue z w)
    (above : y < x) (below : x < z) : ∃ value, IsValue x value := by
  have aboveUnpacked : y.toModel.unpack.compare x.toModel.unpack = some .lt := by
    have less : y.toModel.unpack.lt x.toModel.unpack = true := decide_eq_true_iff.mp above
    exact eq_of_beq less
  have belowUnpacked : x.toModel.unpack.compare z.toModel.unpack = some .lt := by
    have less : x.toModel.unpack.lt z.toModel.unpack = true := decide_eq_true_iff.mp below
    exact eq_of_beq less
  unfold IsValue at low high
  generalize y.toModel.unpack = lower at low aboveUnpacked
  generalize z.toModel.unpack = upper at high belowUnpacked
  rcases read : x.toModel.unpack with (_ | _) | _ | (_ | _) | ⟨_ | _, mantissa, exponent, positive⟩
  case finite.positive => exact ⟨_, isValue_of_unpack _ _ _ read rfl⟩
  -- Infinity is not below a value, and what is negative, zero or no number is not above one.
  case infinity.positive =>
    rw [read] at belowUnpacked
    cases high <;> cases belowUnpacked
  all_goals
    rw [read] at aboveUnpacked
    cases low <;> cases aboveUnpacked

theorem IsValue.onGrid {x : Float} {v : Rat} (value : IsValue x v) : OnGrid v := Stands.onGrid value

theorem IsValue.nonneg {x : Float} {v : Rat} (value : IsValue x v) : 0 ≤ v := Stands.nonneg value

/-! ### Literals and small numbers -/

theorem isValue_zero : IsValue 0.0 0 := by
  have read : (0.0 : Float).toModel.unpack = .zero .positive := rfl
  unfold IsValue
  rw [read]
  exact .zero

theorem isValue_half : IsValue 0.5 (1 / 2) :=
  isValue_of_unpack (2 ^ 52) (-53) (by norm_num) rfl (by norm_num)

theorem isValue_two : IsValue 2.0 2 :=
  isValue_of_unpack (2 ^ 52) (-51) (by norm_num) rfl (by norm_num)

theorem isValue_fifteen : IsValue 15.0 15 :=
  isValue_of_unpack (15 * 2 ^ 49) (-49) (by norm_num) rfl (by norm_num)

theorem isValue_hundred : IsValue 100.0 100 :=
  isValue_of_unpack (100 * 2 ^ 46) (-46) (by norm_num) rfl (by norm_num)

theorem isValue_full : IsValue 255.0 255 :=
  isValue_of_unpack (255 * 2 ^ 45) (-45) (by norm_num) rfl (by norm_num)

/-- Small natural numbers are values. -/
theorem isValue_ofNat {n : Nat} (small : n ≤ 1024) : IsValue (Float.ofNat n) n := by
  have onGrid : OnGrid n := ⟨n, 0, by omega, by norm_num, by norm_num⟩
  have bound : (n : Rat) ≤ 1024 := by exact_mod_cast small
  have word : IsValue n.toUInt64.toFloat n := by
    obtain ⟨rounded, stands, rounds⟩ := exists_normalize (Int.natCast_nonneg n) 0
    rw [Int.cast_natCast, zpow_zero, mul_one] at rounds
    obtain rfl := rounds.eq onGrid
    have value := stands.isValue bound
    have same : n.toUInt64.toNat = n := by
      rw [Nat.toUInt64, UInt64.toNat_ofNat']
      omega
    have converted : n.toUInt64.toFloat
        = .ofModel (.pack (normalize .binary64 (n.toUInt64.toNat : Int) 0 .positive)) := rfl
    rw [converted, same]
    exact value
  have one : IsValue (1 : Float) 1 :=
    isValue_of_unpack (2 ^ 52) (-52) (by norm_num) rfl (by norm_num)
  obtain ⟨rounded, value, rounds⟩ := exists_value_mul word one (by linarith)
  rw [mul_one] at rounds
  obtain rfl := rounds.eq onGrid
  have scaled : Float.ofNat n = n.toUInt64.toFloat * 1 := by
    change Float.ofScientific n false 0 = _
    rw [Float.ofScientific, dif_pos ⟨by omega, by norm_num⟩]
    rfl
  rwa [scaled]
end ThemeCss.Double
