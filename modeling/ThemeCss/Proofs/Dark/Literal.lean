import ThemeCss.Dark.Value
import ThemeCss.Proofs.Dark.Repainted

/-!
# Literals

What a conversion writes is a literal: a number sign with digits, or the name `rgb` or `rgba` with
numbers in parentheses. What it is written over is neutral, since a hexadecimal literal is made of
digits and a call holds no parentheses but its own.
-/
namespace ThemeCss.Dark

open Colour Scan Sheet

/-- Characters that may stand anywhere in a literal, its parentheses apart. -/
def isPigment (c : Char) : Bool := isInert c && c != '{' && c != '}' && c != '/' && c != '!'

def Pigments (text : Text) : Prop := ∀ c ∈ text, isPigment c = true

instance (text : Text) : Decidable (Pigments text) := List.decidableBAll _ text

theorem isInert_of_isPigment {c : Char} (pigment : isPigment c = true) : isInert c = true := by
  simp only [isPigment, Bool.and_eq_true] at pigment
  exact pigment.1.1.1.1

namespace Pigments

theorem append {first second : Text} (left : Pigments first) (right : Pigments second) :
    Pigments (first ++ second) := by
  intro c member
  rcases List.mem_append.mp member with member | member
  · exact left c member
  · exact right c member

theorem cons {c : Char} {text : Text} (pigment : isPigment c = true) (rest : Pigments text) :
    Pigments (c :: text) := by
  intro d member
  rcases List.mem_cons.mp member with rfl | member
  · exact pigment
  · exact rest d member

theorem of_subset {first second : Text} (pigments : Pigments second) (subset : first ⊆ second) :
    Pigments first := fun c member => pigments c (subset member)

variable {text : Text} (pigments : Pigments text)
include pigments

theorem inert : ∀ c ∈ text, isInert c = true := fun c member =>
  isInert_of_isPigment (pigments c member)

theorem avoids : Text.Avoids strangers text := by
  intro c member
  exact Text.not_mem_of_kind (by decide) (pigments c member)

theorem ordinary : ∀ c ∈ text, isOrdinary c = true := fun c member =>
  isOrdinary_of_isInert (pigments.inert c member)

theorem unparenthesised : ∀ c ∈ text, isParenthesis c = false := by
  intro c member
  have inert := pigments.inert c member
  simp only [isInert, Bool.and_eq_true, bne_iff_ne] at inert
  simp [isParenthesis, inert]

end Pigments

/-! ### The two forms -/

theorem balanced_of_unparenthesised {text : Text}
    (free : ∀ c ∈ text, isParenthesis c = false) : Bracket.round.Balanced text := by
  apply Bracket.balanced_of_free
  intro c member
  have other := free c member
  simp only [isParenthesis, Bool.or_eq_false_iff, beq_eq_false_iff_ne] at other
  exact other

theorem neutral_hex {digits : Text} (ordinary : ∀ c ∈ digits, isOrdinary c = true)
    (free : ∀ c ∈ digits, isParenthesis c = false) : Neutral ('#' :: digits) where
  ink := by simp
  closed := .cons rfl (closed_of_ordinary ordinary)
  balanced := by
    apply balanced_of_unparenthesised
    simp only [List.forall_mem_cons]
    exact ⟨rfl, free⟩

/-- A name with arguments is neutral, since its parentheses are partners. -/
theorem neutral_call {name arguments : Text} (nameOrdinary : ∀ c ∈ name, isOrdinary c = true)
    (ordinary : ∀ c ∈ arguments, isOrdinary c = true)
    (nameFree : ∀ c ∈ name, isParenthesis c = false)
    (free : ∀ c ∈ arguments, isParenthesis c = false) :
    Neutral (name ++ ('(' :: arguments ++ [')'])) where
  ink := by simp
  closed := by
    have enclosed : Closed ('(' :: arguments ++ [')']) :=
      .cons rfl ((closed_of_ordinary ordinary).append (.cons rfl closed_nil))
    exact (closed_of_ordinary nameOrdinary).append enclosed
  balanced := by
    have enclosed : Bracket.round.Balanced ('(' :: arguments ++ [')']) :=
      Bracket.Balanced.enclose Bracket.round_sound (closed_of_ordinary ordinary)
        (balanced_of_unparenthesised free)
    exact (balanced_of_unparenthesised nameFree).append (closed_of_ordinary nameOrdinary) enclosed

theorem isLiteral_hex {digits : Text} (pigments : Pigments digits)
    (inked : ∀ c ∈ digits, Text.isBlank c = false) : IsLiteral ('#' :: digits) where
  toNeutral := neutral_hex pigments.ordinary pigments.unparenthesised
  trimmed := by
    constructor
    · intro c start
      have same : '#' = c := by simpa using start
      rw [← same]
      rfl
    · intro c last
      rcases List.mem_cons.mp (List.mem_of_getLast? last) with rfl | member
      · rfl
      · exact inked c member
  free := (Pigments.cons rfl pigments).avoids
  start := by simp
  marked := .inl (List.mem_cons_self ..)

theorem isLiteral_call {name arguments : Text} (named : name ≠ []) (trimmed : Text.Trimmed name)
    (start : name.head? ≠ some '*') (pigments : Pigments name) (inside : Pigments arguments) :
    IsLiteral (name ++ ('(' :: arguments ++ [')'])) where
  toNeutral := neutral_call pigments.ordinary inside.ordinary pigments.unparenthesised
    inside.unparenthesised
  trimmed := by
    have last : Text.Trimmed [')'] := by decide
    have whole := trimmed.between named last (by decide) ('(' :: arguments)
    rwa [List.append_assoc] at whole
  free := by
    intro c member
    rcases List.mem_append.mp member with member | member
    · exact pigments.avoids c member
    · rcases List.mem_append.mp member with member | member
      · rcases List.mem_cons.mp member with rfl | member
        · decide
        · exact inside.avoids c member
      · rw [List.mem_singleton.mp member]
        decide
  start := by rwa [Text.head?_append_of_ne_nil named]
  marked := .inr (by simp)

/-! ### Digits -/

theorem digitChar_induction {P : Char → Bool} (small : ∀ n < 16, P (Nat.digitChar n) = true)
    (other : P '*' = true) (n : Nat) : P (Nat.digitChar n) = true := by
  by_cases bound : n < 16
  · exact small n bound
  -- Numbers that are no digit are written as a star.
  · have star : Nat.digitChar n = '*' := by
      unfold Nat.digitChar
      iterate 16 rw [if_neg (by omega)]
    rwa [star]

theorem isPigment_digitChar (n : Nat) : isPigment (Nat.digitChar n) = true :=
  @digitChar_induction isPigment (by decide) (by decide) n

theorem isBlank_digitChar (n : Nat) : Text.isBlank (Nat.digitChar n) = false := by
  have inked := @digitChar_induction (fun c => !Text.isBlank c) (by decide) (by decide) n
  simpa using inked

/-- What is shown of the first hundred and twenty-eight characters holds of a hexadecimal digit. -/
theorem isHexDigit_induction {P : Char → Bool}
    (ascii : ∀ n < 128, isHexDigit (Char.ofNat n) = true → P (Char.ofNat n) = true) {c : Char}
    (digit : isHexDigit c = true) : P c = true := by
  have small : c.toNat < 128 := by
    simp only [isHexDigit, hexDigit?, Char.le_def, UInt32.le_iff_toNat_le] at digit
    simp only [Char.toNat]
    split at digit
    next bounds => exact Nat.lt_of_le_of_lt bounds.2 (by decide)
    next =>
      split at digit
      next bounds => exact Nat.lt_of_le_of_lt bounds.2 (by decide)
      next =>
        split at digit
        next bounds => exact Nat.lt_of_le_of_lt bounds.2 (by decide)
        next => simp at digit
  have here := ascii c.toNat small
  rw [Char.ofNat_toNat] at here
  exact here digit

theorem isPigment_of_isHexDigit {c : Char} (digit : isHexDigit c = true) : isPigment c = true :=
  @isHexDigit_induction isPigment (by decide) c digit

theorem isPigment_toLower {c : Char} (digit : isHexDigit c = true) :
    isPigment c.toLower = true :=
  @isHexDigit_induction (fun c => isPigment c.toLower) (by decide) c digit

theorem isBlank_toLower {c : Char} (digit : isHexDigit c = true) :
    Text.isBlank c.toLower = false := by
  have inked := @isHexDigit_induction (fun c => !Text.isBlank c.toLower) (by decide) c digit
  simpa using inked

theorem exists_of_mem_toDigitsCore {base fuel n : Nat} {last : Text} {c : Char}
    (member : c ∈ Nat.toDigitsCore base fuel n last) : c ∈ last ∨ ∃ k, c = Nat.digitChar k := by
  induction fuel generalizing n last with
  | zero => exact .inl member
  | succ fuel ih =>
    have grown : ∀ d ∈ Nat.digitChar (n % base) :: last, d ∈ last ∨ ∃ k, d = Nat.digitChar k := by
      intro d listed
      rcases List.mem_cons.mp listed with rfl | listed
      · exact .inr ⟨_, rfl⟩
      · exact .inl listed
    simp only [Nat.toDigitsCore] at member
    split at member
    · exact grown c member
    · rcases ih member with listed | digit
      · exact grown c listed
      · exact .inr digit

theorem pigments_digits (n : Nat) : Pigments (Decimal.digits n) := by
  intro c member
  rcases exists_of_mem_toDigitsCore member with none | ⟨k, rfl⟩
  · simp at none
  · exact isPigment_digitChar k

theorem pigments_padded (width n : Nat) : Pigments (Decimal.padded width n) := by
  apply Pigments.append
  · intro c member
    rw [List.eq_of_mem_replicate member]
    rfl
  · exact pigments_digits n

theorem pigments_fraction {written : Text} (pigments : Pigments written) :
    Pigments (Decimal.fraction written) := by
  rw [Decimal.fraction]
  split
  · decide
  · exact .cons rfl pigments

theorem pigments_dropZeros {written : Text} (pigments : Pigments written) :
    Pigments (Decimal.dropZeros written) := by
  apply pigments.of_subset
  intro c member
  exact List.mem_reverse.mp ((List.dropWhile_sublist _).subset (List.mem_reverse.mp member))

theorem pigments_scientific (coefficient : Nat) {mark : Text} (pigments : Pigments mark)
    (exponent : Nat) :
    Pigments (match Decimal.digits coefficient with
      | [] => []
      | first :: others =>
        first :: Decimal.fraction (Decimal.dropZeros others) ++ mark
          ++ Decimal.padded 2 exponent) := by
  have written := pigments_digits coefficient
  split
  · decide
  next first others same =>
    simp only [same, Pigments, List.forall_mem_cons] at written
    have front : Pigments (first :: Decimal.fraction (Decimal.dropZeros others)) :=
      .cons written.1 (pigments_fraction (pigments_dropZeros written.2))
    exact (front.append pigments).append (pigments_padded 2 exponent)

theorem pigments_positional (coefficient places : Nat) :
    Pigments (Decimal.digits (coefficient / Decimal.tens places) ++
      Decimal.fraction (Decimal.dropZeros
        (Decimal.padded places (coefficient % Decimal.tens places)))) := by
  apply (pigments_digits _).append
  exact pigments_fraction (pigments_dropZeros (pigments_padded _ _))

theorem pigments_shortQuotient (numerator denominator : Nat) :
    Pigments (Decimal.shortQuotient numerator denominator) := by
  unfold Decimal.shortQuotient
  dsimp only
  -- With or without a carry, the digits are written in one of the two ways.
  split
  all_goals
    split
    · apply pigments_scientific
      split <;> decide
    · exact pigments_positional _ _

theorem pigments_short (x : Float) : Pigments (Decimal.short x) := by
  unfold Decimal.short
  split
  · decide
  · decide
  · decide
  · apply Pigments.append
    · split <;> decide
    · split
      · decide
      · exact pigments_shortQuotient _ _

/-! ### What is written -/

theorem isLiteral_hexLiteral (rgb : Rgb Float) {digits : Text}
    (hexadecimal : ∀ c ∈ digits, isHexDigit c = true) :
    IsLiteral (writeHex rgb ++ alphaDigits digits) := by
  have channels : ∀ c ∈ twoDigits (byte rgb.red) ++ twoDigits (byte rgb.green)
      ++ twoDigits (byte rgb.blue), isPigment c = true ∧ Text.isBlank c = false := by
    simp [twoDigits, isPigment_digitChar, isBlank_digitChar]
  have alpha : ∀ c ∈ alphaDigits digits, isPigment c = true ∧ Text.isBlank c = false := by
    intro c member
    -- The alpha digits are those of the old literal in lower case.
    obtain ⟨d, listed, rfl⟩ : ∃ d ∈ digits, c = d.toLower := by
      unfold alphaDigits at member
      split at member
      · simp only [List.mem_cons, List.not_mem_nil, or_false, or_self] at member
        exact ⟨_, by simp, member⟩
      · simp only [List.mem_cons, List.not_mem_nil, or_false] at member
        rcases member with rfl | rfl
        · exact ⟨_, by simp, rfl⟩
        · exact ⟨_, by simp, rfl⟩
      · simp at member
    exact ⟨isPigment_toLower (hexadecimal d listed), isBlank_toLower (hexadecimal d listed)⟩
  have each := List.forall_mem_append.mpr ⟨channels, alpha⟩
  exact isLiteral_hex (fun c member => (each c member).1) fun c member => (each c member).2

theorem exists_writeCall (painted : Painted) :
    ∃ name arguments, (name = "rgb".toList ∨ name = "rgba".toList) ∧ Pigments arguments ∧
      writeCall painted = name ++ ('(' :: arguments ++ [')']) := by
  have comma : Pigments [',', ' '] := by decide
  have channels : Pigments (Text.join [',', ' ']
      [Decimal.digits (byte painted.rgb.red), Decimal.digits (byte painted.rgb.green),
        Decimal.digits (byte painted.rgb.blue)]) := by
    apply Text.intercalate_induction (by decide) (fun _ _ => Pigments.append) comma
    simp only [List.forall_mem_cons]
    exact ⟨pigments_digits _, pigments_digits _, pigments_digits _, by simp⟩
  unfold writeCall
  dsimp only
  split
  · exact ⟨_, _, .inr rfl, (channels.append comma).append (pigments_short painted.alpha), by simp⟩
  · exact ⟨_, _, .inl rfl, channels, by simp⟩

theorem isLiteral_writeCall (painted : Painted) : IsLiteral (writeCall painted) := by
  obtain ⟨name, arguments, named, inside, whole⟩ := exists_writeCall painted
  rw [whole]
  rcases named with rfl | rfl
  · exact isLiteral_call (by decide) (by decide) (by decide) (by decide) inside
  · exact isLiteral_call (by decide) (by decide) (by decide) (by decide) inside

/-! ### What is written over -/

theorem exists_of_hexMatcher {place : Option Char} {text digits : Text} {size : Nat}
    (found : hexMatcher place text = some (digits, size)) :
    (∀ c ∈ digits, isHexDigit c = true) ∧ text.take (size - 1 + 1) = '#' :: digits := by
  unfold hexMatcher at found
  split at found
  next rest =>
    dsimp only at found
    split at found
    next =>
      simp only [Option.some.injEq, Prod.mk.injEq] at found
      obtain ⟨rfl, rfl⟩ := found
      constructor
      · intro c member
        exact List.all_eq_true.mp List.all_takeWhile c member
      · have start := List.prefix_iff_eq_take.mp (List.takeWhile_prefix (l := rest) isHexDigit)
        simp [← start]
    next => simp at found
  next => simp at found

theorem unparenthesised_of_isKeyword {word text : Text}
    (apart : Text.breaks word '(' = true ∧ Text.breaks word ')' = true)
    (keyword : Text.isKeyword word text = true) : ∀ c ∈ text, isParenthesis c = false := by
  intro c member
  cases parenthesis : isParenthesis c with
  | false => rfl
  | true =>
    simp only [isParenthesis, Bool.or_eq_true, beq_iff_eq] at parenthesis
    rcases parenthesis with rfl | rfl
    · exact absurd member (Text.not_mem_of_isKeyword apart.1 keyword)
    · exact absurd member (Text.not_mem_of_isKeyword apart.2 keyword)

theorem exists_of_dropLetterA {text rest : Text} (found : dropLetterA text = '(' :: rest) :
    ∃ letter, text = letter ++ '(' :: rest ∧ ∀ c ∈ letter, isParenthesis c = false := by
  cases dropped : Text.dropKeyword? ['a'] text with
  | none => exact ⟨[], by simpa [dropLetterA, dropped] using found, by simp⟩
  | some after =>
    obtain ⟨met, rfl, keyword⟩ := Text.exists_isKeyword dropped
    have same : after = '(' :: rest := by simpa [dropLetterA, dropped] using found
    exact ⟨met, by rw [same], unparenthesised_of_isKeyword ⟨by decide, by decide⟩ keyword⟩

theorem unparenthesised_of_isBlank {c : Char} (blank : Text.isBlank c = true) :
    isParenthesis c = false := by
  cases parenthesis : isParenthesis c with
  | false => rfl
  | true =>
    simp only [isParenthesis, Bool.or_eq_true, beq_iff_eq] at parenthesis
    rcases parenthesis with rfl | rfl <;> exact absurd blank (by decide)

/-- What is covered up to a rest is what stands before it. -/
theorem take_covered {text covered after : Text} (parts : text = covered ++ after)
    (ink : covered ≠ []) : text.take (text.length - after.length - 1 + 1) = covered := by
  have some := List.length_pos_iff.mpr ink
  have size : text.length - after.length - 1 + 1 = covered.length := by
    simp only [parts, List.length_append]
    omega
  rw [size, parts, List.take_left]

/-- What a call covers: its name, and its parentheses around what is not one. -/
theorem exists_of_callMatcher {name : Text}
    (apart : Text.breaks name '(' = true ∧ Text.breaks name ')' = true) {place : Option Char}
    {text body : Text} {size : Nat} (found : callMatcher name place text = some (body, size)) :
    ∃ head inside, text.take (size - 1 + 1) = head ++ ('(' :: inside ++ [')']) ∧
      (∀ c ∈ head, isParenthesis c = false) ∧ ∀ c ∈ inside, isParenthesis c = false := by
  unfold callMatcher at found
  split at found
  · simp at found
  · split at found
    next rest named =>
      dsimp only at found
      split at found
      next after closes =>
        simp only [Option.some.injEq, Prod.mk.injEq] at found
        obtain ⟨-, rfl⟩ := found
        obtain ⟨behind, dropped, lettered⟩ := Option.map_eq_some_iff.mp named
        obtain ⟨met, rfl, keyword⟩ := Text.exists_isKeyword dropped
        obtain ⟨letter, rfl, letterFree⟩ := exists_of_dropLetterA lettered
        -- Behind the parenthesis stand blanks and the arguments, up to the closing one.
        have arguments := List.takeWhile_append_dropWhile (p := (!isParenthesis ·))
          (l := Text.trimLeft rest)
        have whole := Text.takeWhile_append_trimLeft rest
        rw [closes] at arguments
        rw [← arguments, ← List.append_assoc] at whole
        refine ⟨met ++ letter, rest.takeWhile Text.isBlank ++
          (Text.trimLeft rest).takeWhile (!isParenthesis ·), ?_, ?_, ?_⟩
        · apply take_covered _ (by simp)
          conv => lhs; rw [← whole]
          simp
        · simp only [List.forall_mem_append]
          exact ⟨unparenthesised_of_isKeyword apart keyword, letterFree⟩
        · simp only [List.forall_mem_append]
          constructor
          · intro c member
            exact unparenthesised_of_isBlank (Text.blank_takeWhile rest c member)
          · intro c member
            simpa using List.all_eq_true.mp List.all_takeWhile c member
      next => simp at found
    next => simp at found

end ThemeCss.Dark
