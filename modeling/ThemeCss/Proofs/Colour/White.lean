import ThemeCss.Colour.Hex
import ThemeCss.Proofs.Float.Value

/-!
# Nearly white colours

Whatever the channels of a colour are, clamped they have values, and so have the numbers that its
description is made of. The sum of the extremes stays below two for every colour with a hue, but for
one pair: when the greatest channel is full and the least is the double next to it, rounding carries
the sum to two, and saturation divides by what that leaves of two.
-/
namespace ThemeCss.Colour

open Scalar Double

/-! ### Clamped channels -/

theorem exists_value_channel (x : Float) : ∃ v, IsValue (channel x) v ∧ v ≤ 255 := by
  -- A number that compares with nothing gives way to the upper bound.
  have bounded : least 255.0 x = 255.0 ∨ least 255.0 x = x ∧ x < 255.0 := by
    unfold least
    split
    next below => exact .inr ⟨rfl, below⟩
    next => exact .inl rfl
  unfold channel clamp greatest
  split
  next above =>
    rcases bounded with full | ⟨same, below⟩
    · rw [full]
      exact ⟨255, isValue_full, le_rfl⟩
    · rw [same] at above ⊢
      obtain ⟨v, value⟩ := exists_value_of_between isValue_zero isValue_full above below
      exact ⟨v, value, ((lt_iff_value value isValue_full).mp below).le⟩
  next => exact ⟨0, isValue_zero, by norm_num⟩

theorem isValue_channel {x : Float} {v : Rat} (value : IsValue x v) (bound : v ≤ 255) :
    IsValue (channel x) v := by
  have upper : IsValue (least 255.0 x) v := by
    unfold least
    split
    next => exact value
    next above =>
      have full : v = 255 := by
        apply le_antisymm bound
        exact not_lt.mp (mt (lt_iff_value value isValue_full).mpr above)
      rw [full]
      exact isValue_full
  unfold channel clamp greatest
  split
  next => exact upper
  next below =>
    have nothing : v = 0 := by
      apply le_antisymm _ value.nonneg
      exact not_lt.mp (mt (lt_iff_value isValue_zero upper).mpr below)
    rw [nothing]
    exact isValue_zero

section extremes

variable {x y : Float} {v w : Rat} (first : IsValue x v) (second : IsValue y w)
include first second

theorem isValue_greatest : IsValue (greatest x y) (max v w) := by
  unfold greatest
  split
  next below =>
    have order := (lt_iff_value first second).mp below
    rwa [max_eq_right order.le]
  next above =>
    have order := mt (lt_iff_value first second).mpr above
    rwa [max_eq_left (not_lt.mp order)]

theorem isValue_least : IsValue (least x y) (min v w) := by
  unfold least
  split
  next below =>
    have order := (lt_iff_value second first).mp below
    rwa [min_eq_right order.le]
  next above =>
    have order := mt (lt_iff_value second first).mpr above
    rwa [min_eq_left (not_lt.mp order)]

end extremes

/-! ### Units -/

theorem isValue_one : IsValue 1.0 1 :=
  isValue_of_unpack (2 ^ 52) (-52) (by norm_num) rfl (by norm_num)

theorem isValue_almostOne : IsValue 0.9999999999999999 (1 - 1 / 2 ^ 53) :=
  isValue_of_unpack (2 ^ 53 - 1) (-53) (by norm_num) rfl (by norm_num)

theorem isValue_almostFull : IsValue 254.99999999999997 (255 - 1 / 2 ^ 45) :=
  isValue_of_unpack (255 * 2 ^ 45 - 1) (-45) (by norm_num) rfl (by norm_num)

/-- A channel and its part of the whole, which is one exactly for a full channel, and next to one
exactly for a channel next to full. -/
structure Shade (channel unit : Rat) : Prop where
  bound : channel ≤ 255
  start : 0 ≤ unit
  whole : unit ≤ 1
  full : 255 ≤ channel ↔ 1 ≤ unit
  almost : 255 - 1 / 2 ^ 45 ≤ channel ↔ 1 - 1 / 2 ^ 53 ≤ unit

theorem exists_shade {x : Float} {v : Rat} (value : IsValue x v) (bound : v ≤ 255) :
    ∃ unit, IsValue (x / 255.0) unit ∧ Shade v unit := by
  obtain ⟨unit, quotient, rounds⟩ := exists_value_div value isValue_full (by norm_num) (by linarith)
  suffices rest : unit ≤ 1 ∧ (255 ≤ v ↔ 1 ≤ unit) ∧
      (255 - 1 / 2 ^ 45 ≤ v ↔ 1 - 1 / 2 ^ 53 ≤ unit) from
    ⟨unit, quotient, bound, quotient.nonneg, rest.1, rest.2.1, rest.2.2⟩
  rcases bound.eq_or_lt with rfl | less
  · have low := rounds.ge isValue_one.onGrid (by norm_num)
    have high := rounds.le isValue_one.onGrid (by norm_num)
    obtain rfl := le_antisymm high low
    norm_num
  rcases lt_or_ge v (255 - 1 / 2 ^ 45) with far | near
  · -- The next double is so far from full that its part stays two steps below one.
    have farther := le_of_lt_next (255 * 2 ^ 45 - 2) (-45) (.inl (by norm_num)) value.onGrid
      (by norm_num at far ⊢; exact far)
    have onGrid : OnGrid (1 - 1 / 2 ^ 52) :=
      ⟨2 ^ 52 - 1, -52, by norm_num, by norm_num, by norm_num⟩
    have high := rounds.le onGrid (by norm_num at farther ⊢; linarith)
    have below : unit < 1 - 1 / 2 ^ 53 := high.trans_lt (by norm_num)
    exact ⟨by linarith, iff_of_false less.not_ge (by linarith),
      iff_of_false far.not_ge below.not_ge⟩
  · -- One double is left, and its part is computed.
    have nearer := le_of_lt_next (255 * 2 ^ 45 - 1) (-45) (.inl (by norm_num)) value.onGrid
      (by norm_num; exact less)
    obtain rfl : v = 255 - 1 / 2 ^ 45 := le_antisymm (by norm_num at nearer ⊢; exact nearer) near
    have computed : IsValue ((254.99999999999997 : Float) / 255.0) (1 - 1 / 2 ^ 53) :=
      isValue_of_unpack (2 ^ 53 - 1) (-53) (by norm_num) rfl (by norm_num)
    rw [← div_eq_of_value value isValue_almostFull isValue_full isValue_full] at computed
    obtain rfl := quotient.unique computed
    norm_num

namespace Shade

variable {v w unit part : Rat} (first : Shade v unit) (second : Shade w part)
include first second

theorem max : Shade (max v w) (max unit part) where
  bound := max_le first.bound second.bound
  start := le_max_of_le_left first.start
  whole := max_le first.whole second.whole
  full := by
    rw [le_max_iff, le_max_iff, first.full, second.full]
  almost := by
    rw [le_max_iff, le_max_iff, first.almost, second.almost]

theorem min : Shade (min v w) (min unit part) where
  bound := min_le_of_left_le first.bound
  start := le_min first.start second.start
  whole := min_le_of_left_le first.whole
  full := by
    rw [le_min_iff, le_min_iff, first.full, second.full]
  almost := by
    rw [le_min_iff, le_min_iff, first.almost, second.almost]

omit second in
theorem eq_full : v = 255 ↔ unit = 1 := by
  rw [← first.bound.ge_iff_eq, ← first.whole.ge_iff_eq]
  exact first.full

omit second in
theorem eq_almost (onGrid : OnGrid v) :
    v = 255 - 1 / 2 ^ 45 ↔ 1 - 1 / 2 ^ 53 ≤ unit ∧ unit < 1 := by
  rw [← first.almost, ← not_le, ← first.full, not_le]
  constructor
  · rintro rfl
    norm_num
  · rintro ⟨near, less⟩
    have next := le_of_lt_next (255 * 2 ^ 45 - 1) (-45) (.inl (by norm_num)) onGrid
      (by norm_num; exact less)
    exact le_antisymm (by norm_num at next ⊢; exact next) near

end Shade

/-! ### The extremes -/

/-- The greatest clamped channel. -/
def brightest (rgb : Rgb Float) : Float :=
  greatest (greatest (channel rgb.red) (channel rgb.green)) (channel rgb.blue)

/-- The least clamped channel. -/
def darkest (rgb : Rgb Float) : Float :=
  least (least (channel rgb.red) (channel rgb.green)) (channel rgb.blue)

/-- Clamped, the greatest channel is full and the least is the double next to it. -/
def NearlyWhite (rgb : Rgb Float) : Prop :=
  (brightest rgb == 255.0) = true ∧ (darkest rgb == 254.99999999999997) = true

instance (rgb : Rgb Float) : Decidable (NearlyWhite rgb) := inferInstanceAs (Decidable (_ ∧ _))

/-- A colour with whole channels is not nearly white. -/
theorem not_nearlyWhite_toFloat {rgb : Rgb Nat}
    (bounds : rgb.red ≤ 255 ∧ rgb.green ≤ 255 ∧ rgb.blue ≤ 255) :
    ¬ NearlyWhite (Rgb.toFloat rgb) := by
  have each {n : Nat} (bound : n ≤ 255) : IsValue (channel (Float.ofNat n)) n :=
    isValue_channel (isValue_ofNat (by omega)) (by exact_mod_cast bound)
  have bottom := isValue_least (isValue_least (each bounds.1) (each bounds.2.1)) (each bounds.2.2)
  rintro ⟨_, almost⟩
  have value := (beq_iff_value bottom isValue_almostFull).mp almost
  rw [← Nat.cast_min, ← Nat.cast_min] at value
  -- The double next to full is no whole number.
  have scaled : (min (min rgb.red rgb.green) rgb.blue) * 2 ^ 45 + 1 = 255 * 2 ^ 45 := by
    have product :
        ((min (min rgb.red rgb.green) rgb.blue : Nat) : Rat) * 2 ^ 45 + 1 = 255 * 2 ^ 45 := by
      rw [value]
      norm_num
    exact_mod_cast product
  omega

/-- The sum of the extremes is two exactly when one is whole and the other is next to it. -/
theorem exists_sum {top bottom : Float} {high low : Rat} (topValue : IsValue top high)
    (bottomValue : IsValue bottom low) (order : low ≤ high) (whole : high ≤ 1) :
    ∃ sum, IsValue (top + bottom) sum ∧ high ≤ sum ∧ sum ≤ 2 ∧
      (low < high → (sum = 2 ↔ high = 1 ∧ 1 - 1 / 2 ^ 53 ≤ low)) := by
  have start := bottomValue.nonneg
  obtain ⟨sum, value, rounds⟩ := exists_value_add topValue bottomValue (by linarith)
  refine ⟨sum, value, rounds.ge topValue.onGrid (by linarith),
    rounds.le isValue_two.onGrid (by linarith), fun coloured => ?_⟩
  constructor
  · intro two
    have onGrid : OnGrid (2 - 1 / 2 ^ 52) :=
      ⟨2 ^ 53 - 1, -52, by norm_num, by norm_num, by norm_num⟩
    have close : 2 - 1 / 2 ^ 52 < high + low := by
      by_contra below
      have bound := rounds.le onGrid (not_lt.mp below)
      norm_num [two] at bound
    -- A double below one is below it by a step.
    have step {v : Rat} (grid : OnGrid v) (below : v < 1) : v ≤ 1 - 1 / 2 ^ 53 := by
      have next := le_of_lt_next (2 ^ 53 - 1) (-53) (.inl (by norm_num)) grid
        (by norm_num; exact below)
      norm_num at next ⊢
      exact next
    have lowStep := step bottomValue.onGrid (by linarith)
    have full : high = 1 := by
      by_contra part
      have highStep := step topValue.onGrid (lt_of_le_of_ne whole part)
      norm_num at close lowStep highStep
      linarith
    refine ⟨full, ?_⟩
    by_contra far
    have next := le_of_lt_next (2 ^ 53 - 2) (-53) (.inl (by norm_num)) bottomValue.onGrid
      (by norm_num at far ⊢; exact far)
    norm_num [full] at close next
    linarith
  · rintro ⟨rfl, near⟩
    have next := le_of_lt_next (2 ^ 53 - 1) (-53) (.inl (by norm_num)) bottomValue.onGrid
      (by norm_num; exact coloured)
    obtain rfl : low = 1 - 1 / 2 ^ 53 := le_antisymm (by norm_num at next ⊢; exact next) near
    have computed : IsValue ((1.0 : Float) + 0.9999999999999999) 2 :=
      isValue_of_unpack (2 ^ 52) (-51) (by norm_num) rfl (by norm_num)
    rw [← add_eq_of_value topValue isValue_one bottomValue isValue_almostOne] at computed
    exact value.unique computed

/-- The parts that the extreme channels are of the whole. -/
structure Extremes (rgb : Rgb Float) (top bottom : Float) (high low : Rat) : Prop where
  topValue : IsValue top high
  bottomValue : IsValue bottom low
  order : low ≤ high
  whole : high ≤ 1
  nearlyWhite : NearlyWhite rgb ↔ high = 1 ∧ 1 - 1 / 2 ^ 53 ≤ low ∧ low < 1

/-- What a description depends on. -/
theorem toHsl_eq (rgb : Rgb Float) : ∃ (top bottom : Float) (high low : Rat),
    Extremes rgb top bottom high low ∧ ∃ hue saturation,
      toHsl rgb =
        if bottom == top then .ok ⟨0.0, 0.0, (top + bottom) / 2.0 * 100.0⟩
        else if (if (top + bottom) / 2.0 ≤ 0.5 then top + bottom
            else 2.0 - (top + bottom)) == 0.0 then
          .error .divisionByZero
        else .ok ⟨hue, saturation, (top + bottom) / 2.0 * 100.0⟩ := by
  obtain ⟨r, red, redBound⟩ := exists_value_channel rgb.red
  obtain ⟨g, green, greenBound⟩ := exists_value_channel rgb.green
  obtain ⟨b, blue, blueBound⟩ := exists_value_channel rgb.blue
  obtain ⟨redUnit, redPart, redShade⟩ := exists_shade red redBound
  obtain ⟨greenUnit, greenPart, greenShade⟩ := exists_shade green greenBound
  obtain ⟨blueUnit, bluePart, blueShade⟩ := exists_shade blue blueBound
  have highShade := (redShade.max greenShade).max blueShade
  have lowShade := (redShade.min greenShade).min blueShade
  refine ⟨_, _, _, _, ⟨isValue_greatest (isValue_greatest redPart greenPart) bluePart,
    isValue_least (isValue_least redPart greenPart) bluePart, ?_, highShade.whole, ?_⟩, _, _, rfl⟩
  · exact (min_le_left _ _).trans ((min_le_left _ _).trans
      ((le_max_left _ _).trans (le_max_left _ _)))
  · have top := isValue_greatest (isValue_greatest red green) blue
    have bottom := isValue_least (isValue_least red green) blue
    unfold NearlyWhite brightest darkest
    rw [beq_iff_value top isValue_full, beq_iff_value bottom isValue_almostFull, highShade.eq_full,
      lowShade.eq_almost bottom.onGrid]

/-- What a sum of two channels leaves of two is nothing only when it is two. -/
theorem exists_rest {x : Float} {sum : Rat} (value : IsValue x sum) (below : sum ≤ 2) :
    ∃ rest, IsValue (2.0 - x) rest ∧ (rest = 0 ↔ sum = 2) := by
  have start := value.nonneg
  obtain ⟨rest, restValue, rounds⟩ := exists_value_sub isValue_two value below (by linarith)
  refine ⟨rest, restValue, ?_⟩
  constructor
  · intro nothing
    by_contra part
    have next := le_of_lt_next (2 ^ 53 - 1) (-52) (.inl (by norm_num)) value.onGrid
      (by norm_num; exact lt_of_le_of_ne below part)
    have onGrid : OnGrid (1 / 2 ^ 52) := ⟨1, -52, by norm_num, by norm_num, by norm_num⟩
    have some := rounds.ge onGrid (by norm_num at next ⊢; linarith)
    rw [nothing] at some
    norm_num at some
  · rintro rfl
    exact le_antisymm (rounds.le isValue_zero.onGrid (by norm_num)) restValue.nonneg

/-- A colour that is nearly white divides by zero; any other has a description, and its lightness is
a hundred at most. -/
theorem toHsl_cases (rgb : Rgb Float) :
    if NearlyWhite rgb then toHsl rgb = .error .divisionByZero
    else ∃ hsl lightness, toHsl rgb = .ok hsl ∧ IsValue hsl.lightness lightness ∧
      lightness ≤ 100 := by
  obtain ⟨top, bottom, high, low, ⟨topValue, bottomValue, order, whole, nearlyWhite⟩, hue,
    saturation, described⟩ := toHsl_eq rgb
  obtain ⟨sum, sumValue, above, below, two⟩ := exists_sum topValue bottomValue order whole
  obtain ⟨centre, centreValue, centreRounds⟩ :=
    exists_value_div sumValue isValue_two (by norm_num) (by linarith)
  have centreBound : centre ≤ 1 := centreRounds.le isValue_one.onGrid (by linarith)
  have nonneg := centreValue.nonneg
  obtain ⟨lightness, lightnessValue, lightnessRounds⟩ :=
    exists_value_mul centreValue isValue_hundred (by linarith)
  have lightnessBound := lightnessRounds.le isValue_hundred.onGrid (by linarith)
  rw [described]
  rcases order.eq_or_lt with grey | coloured
  · -- For a grey nothing is divided.
    have equal := (beq_iff_value bottomValue topValue).mpr grey
    have other : ¬ NearlyWhite rgb := by
      rw [nearlyWhite]
      rintro ⟨full, _, part⟩
      linarith
    rw [if_neg other, if_pos equal]
    exact ⟨_, lightness, rfl, lightnessValue, lightnessBound⟩
  have unequal := mt (beq_iff_value bottomValue topValue).mp coloured.ne
  have carried : NearlyWhite rgb ↔ sum = 2 := by
    rw [nearlyWhite, two coloured]
    constructor
    · exact fun ⟨full, near, _⟩ => ⟨full, near⟩
    · exact fun ⟨full, near⟩ => ⟨full, near, by linarith⟩
  rw [if_neg unequal]
  -- Up to half the lightness the divisor is the sum of the extremes, above it what is left to two.
  by_cases dark : (top + bottom) / 2.0 ≤ 0.5
  · have half := (le_iff_value centreValue isValue_half).mp dark
    have other : ¬ NearlyWhite rgb := by
      rw [carried]
      rintro rfl
      have one := centreRounds.ge isValue_one.onGrid (by norm_num)
      linarith
    have divides := mt (beq_iff_value sumValue isValue_zero).mp (by linarith [bottomValue.nonneg])
    rw [if_pos dark, if_neg other, if_neg divides]
    exact ⟨_, lightness, rfl, lightnessValue, lightnessBound⟩
  · obtain ⟨rest, restValue, nothing⟩ := exists_rest sumValue below
    rw [if_neg dark]
    by_cases white : NearlyWhite rgb
    · have zero := (beq_iff_value restValue isValue_zero).mpr (nothing.mpr (carried.mp white))
      rw [if_pos white, if_pos zero]
    · have divides := mt (beq_iff_value restValue isValue_zero).mp
        (mt nothing.mp (mt carried.mpr white))
      rw [if_neg white, if_neg divides]
      exact ⟨_, lightness, rfl, lightnessValue, lightnessBound⟩

end ThemeCss.Colour
