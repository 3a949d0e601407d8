import ThemeCss.Proofs.Colour.Byte
import ThemeCss.Proofs.Dark.Recast
import ThemeCss.Proofs.Dark.Shear
import ThemeCss.Proofs.Theme.White

/-!
# Passes

Each pass of a conversion reads what the one before it has written. Still, the calls that a pass
meets are those of the text that was there at first: the first pass only changes digits that are
shorn, and the second one writes calls over calls of the same name, which hold no call of another.
-/
namespace ThemeCss.Dark

open Colour Theme

/-! ### Names and digits -/

theorem namesCall_of_sign {name text : Text} (apart : Text.breaks name '#' = true)
    (sign : '#' ∈ text) : namesCall name text = false := by
  rw [Bool.eq_false_iff]
  intro names
  obtain ⟨word, letter, rfl, keyword, rest⟩ := exists_of_namesCall names
  rcases List.mem_append.mp sign with member | member
  · exact Text.not_mem_of_isKeyword apart keyword member
  · rcases rest with rfl | keyword
    · simp at member
    · exact Text.not_mem_of_isKeyword (by decide) keyword member

theorem isWord_of_isHexDigit {c : Char} (digit : isHexDigit c = true) : Text.isWord c = true :=
  @isHexDigit_induction Text.isWord (by decide) c digit

namespace CallName

variable {name : Text} (callName : CallName name)
include callName

theorem namesCall_of_isHexDigit {c : Char} (digit : isHexDigit c = true) (rest : Text) :
    namesCall name (c :: rest) = false := by
  obtain ⟨letter, word, rfl⟩ := List.exists_cons_of_ne_nil callName.ink
  have apart := callName.start letter rfl c digit
  simp [namesCall, Text.dropKeyword?, apart]

theorem namesCall_shear (c : Char) (rest : Text) :
    namesCall name (c :: shearFrom (.after c) rest) = namesCall name (c :: rest) := by
  by_cases sign : c = '#'
  · subst sign
    rw [namesCall_of_sign callName.sign (List.mem_cons_self ..),
      namesCall_of_sign callName.sign (List.mem_cons_self ..)]
  · rw [Place.after, if_neg sign]
    by_cases member : '#' ∈ rest
    · have shorn := mem_sign_shear.mpr member
      rw [namesCall_of_sign callName.sign (List.mem_cons_of_mem c member)]
      exact namesCall_of_sign callName.sign (List.mem_cons_of_mem c shorn)
    · have same := shear_of_signFree member
      rw [shear] at same
      rw [same]

theorem endsInName_shearFrom {place : Place} {before other : Option Char}
    (same : Text.isWord? other = Text.isWord? before)
    (word : place = .among → Text.isWord? other = true) (text : Text) :
    endsInName name other (shearFrom place text) = endsInName name before text := by
  induction text generalizing place before other with
  | nil => cases place <;> rfl
  | cons c rest ih =>
    -- A name starts at no digit, be it dropped or a zero for others.
    rcases shearFrom_cases place c rest with kept | ⟨digit, ⟨_, zero⟩ | ⟨rfl, gone⟩⟩
    · have outside : Place.after c = .among → Text.isWord? (some c) = true := by
        unfold Place.after
        split <;> simp
      rw [kept, endsInName, endsInName, same, callName.namesCall_shear, ih rfl outside]
    · have nought : isHexDigit '0' = true := by decide
      have inside : Text.isWord? (some '0') = Text.isWord? (some c) :=
        (isWord_of_isHexDigit nought).trans (isWord_of_isHexDigit digit).symm
      simp only [zero, endsInName, callName.namesCall_of_isHexDigit nought,
        callName.namesCall_of_isHexDigit digit, Bool.and_false, Bool.false_or]
      exact ih inside (fun _ => rfl)
    · simp only [gone, endsInName, callName.namesCall_of_isHexDigit digit, Bool.and_false,
        Bool.false_or]
      exact ih ((word rfl).trans (isWord_of_isHexDigit digit).symm) word

theorem bodies_shear (opened : Bool) (pairs : List (Text × Char)) :
    bodies name opened (pairs.map fun pair => (shear pair.1, pair.2))
      = (bodies name opened pairs).map shear := by
  induction pairs generalizing opened with
  | nil => simp [bodies]
  | cons pair rest ih =>
    obtain ⟨stretch, mark⟩ := pair
    have ends : endsInName name none (shear stretch) = endsInName name none stretch :=
      callName.endsInName_shearFrom rfl (by simp) stretch
    simp only [List.map_cons, bodies, ends, trimLeft_shear, ih]
    split <;> rfl

end CallName

theorem Flat.shear {text : Text} (flat : Flat text) : Flat (shear text) := by
  intro c member
  rcases mem_shearFrom member with held | rfl
  · exact flat c held
  · rfl

theorem paired_shear {pairs : List (Text × Char)} {last : Text} (cut : Cut pairs last) :
    paired (shear last) (pairs.map fun pair => (shear pair.1, pair.2)) = shear (paired last pairs) ∧
      Cut (pairs.map fun pair => (shear pair.1, pair.2)) (shear last) := by
  induction pairs with
  | nil => exact ⟨rfl, by simp, cut.last.shear⟩
  | cons pair rest ih =>
    obtain ⟨flat, parenthesis⟩ := cut.pairs pair (List.mem_cons_self ..)
    obtain ⟨whole, shorn⟩ := ih cut.tail
    constructor
    · rw [List.map_cons, paired, whole, paired, shear_append (isAloof_of_isParenthesis parenthesis)]
    · refine ⟨?_, shorn.last⟩
      rw [List.map_cons, List.forall_mem_cons]
      exact ⟨⟨flat.shear, parenthesis⟩, shorn.pairs⟩

theorem calls_shear {name : Text} (callName : CallName name) (text : Text) :
    calls name (shear text) = (calls name text).map shear := by
  obtain ⟨pairs, last, cut, rfl⟩ := exists_paired text
  obtain ⟨whole, shorn⟩ := paired_shear cut
  rw [← whole, calls_paired callName shorn, calls_paired callName cut, callName.bodies_shear]

/-! ### Hexadecimal literals -/

theorem shearFrom_among {digits : Text} (hexadecimal : ∀ c ∈ digits, isHexDigit c = true)
    (rest : Text) : shearFrom .among (digits ++ rest) = shearFrom .among rest := by
  induction digits with
  | nil => rfl
  | cons c tail ih =>
    simp only [List.forall_mem_cons] at hexadecimal
    simp [shearFrom, hexadecimal.1, ih hexadecimal.2]

/-- How many digits a literal has does not matter. -/
theorem shearFrom_literal {digits : Text} (ink : digits ≠ [])
    (hexadecimal : ∀ c ∈ digits, isHexDigit c = true) (place : Place) (rest : Text) :
    shearFrom place ('#' :: digits ++ rest) = '#' :: '0' :: shearFrom .among rest := by
  obtain ⟨c, tail, rfl⟩ := List.exists_cons_of_ne_nil ink
  simp only [List.forall_mem_cons] at hexadecimal
  rw [List.cons_append, shearFrom_cons_of_not place (by decide), Place.after, if_pos rfl,
    List.cons_append, shearFrom, if_pos hexadecimal.1, shearFrom_among hexadecimal.2]

theorem ink_of_hexMatcher {place : Option Char} {text digits : Text} {size : Nat}
    (found : hexMatcher place text = some (digits, size)) : digits ≠ [] := by
  rintro rfl
  unfold hexMatcher at found
  split at found
  next =>
    dsimp only at found
    split at found
    next long =>
      simp only [Option.some.injEq, Prod.mk.injEq] at found
      simp [found.1] at long
    next => simp at found
  next => simp at found

theorem isHexDigit_alphaDigits {digits : Text} (hexadecimal : ∀ c ∈ digits, isHexDigit c = true) :
    ∀ c ∈ alphaDigits digits, isHexDigit c = true := by
  have lower {c : Char} (digit : isHexDigit c = true) : isHexDigit c.toLower = true :=
    @isHexDigit_induction (fun c => isHexDigit c.toLower) (by decide) c digit
  unfold alphaDigits
  split
  · simp only [List.forall_mem_cons] at hexadecimal ⊢
    obtain ⟨_, _, _, alpha, none⟩ := hexadecimal
    exact ⟨lower alpha, lower alpha, none⟩
  · simp only [List.forall_mem_cons] at hexadecimal ⊢
    obtain ⟨_, _, _, _, _, _, first, second, none⟩ := hexadecimal
    exact ⟨lower first, lower second, none⟩
  · simp

/-- What is written for a literal is a literal. -/
theorem exists_of_convertHexLiteral {tuning : Tuning Float} {role : Role} {digits written : Text}
    (ink : digits ≠ []) (hexadecimal : ∀ c ∈ digits, isHexDigit c = true)
    (converted : convertHexLiteral tuning role digits ('#' :: digits) = .ok written) :
    ∃ news, written = '#' :: news ∧ news ≠ [] ∧ ∀ c ∈ news, isHexDigit c = true := by
  unfold convertHexLiteral at converted
  split at converted
  · exact ⟨digits, (Except.ok.inj converted).symm, ink, hexadecimal⟩
  · obtain ⟨rgb, _, same⟩ := Text.exists_of_bind_ok converted
    refine ⟨twoDigits (byte rgb.red) ++ twoDigits (byte rgb.green) ++ twoDigits (byte rgb.blue)
      ++ alphaDigits digits, (Except.ok.inj same).symm, by simp [twoDigits], ?_⟩
    simp only [List.forall_mem_append]
    exact ⟨⟨⟨isHexDigit_twoDigits (byte_le _), isHexDigit_twoDigits (byte_le _)⟩,
      isHexDigit_twoDigits (byte_le _)⟩, isHexDigit_alphaDigits hexadecimal⟩

theorem shearFrom_parts {tuning : Tuning Float} {role : Role} (before : Option Char) (text : Text) :
    ∀ (parts : List Text) (place : Place),
      List.Forall₂
        (fun fragment part => fragment.attempt (convertHexLiteral tuning role) = .ok part)
        (Text.fragments hexMatcher before text) parts →
      shearFrom place parts.flatten = shearFrom place text := by
  fun_induction Text.fragments hexMatcher before text with
  | case1 =>
    rintro parts place ⟨⟩
    rfl
  | case2 before c rest _ ih =>
    rintro _ place (_ | @⟨_, part, _, parts, answered, others⟩)
    obtain rfl : [c] = part := Except.ok.inj answered
    rw [List.flatten_cons, List.singleton_append]
    cases place <;> simp only [shearFrom, ih parts _ others]
  | case3 before c rest digits size found inner ih =>
    rintro _ place (_ | @⟨_, part, _, parts, answered, others⟩)
    obtain ⟨hexadecimal, covered⟩ := exists_of_hexMatcher found
    have ink := ink_of_hexMatcher found
    rw [List.take_succ_cons] at covered
    have whole : c :: rest = '#' :: digits ++ rest.drop (size - 1) := by
      rw [← covered, List.cons_append, List.take_append_drop]
    have converted : convertHexLiteral tuning role digits ('#' :: digits) = .ok part := by
      rw [← covered]
      exact answered
    obtain ⟨news, rfl, newInk, newHexadecimal⟩ :=
      exists_of_convertHexLiteral ink hexadecimal converted
    rw [List.flatten_cons, shearFrom_literal newInk newHexadecimal, whole,
      shearFrom_literal ink hexadecimal, ih parts .among others]

theorem shear_converted {tuning : Tuning Float} {role : Role} {text new : Text}
    (converted : Text.tryRewrite hexMatcher (convertHexLiteral tuning role) text = .ok new) :
    shear new = shear text := by
  obtain ⟨parts, rfl, each⟩ := Text.exists_of_tryRewrite converted
  exact shearFrom_parts none text parts .outside each

/-! ### Failing passes -/

/-- What is read from the arguments of a call is nearly white. -/
def Dazzles (read : Text → Option Painted) (body : Text) : Prop :=
  ∃ painted ∈ read body, NearlyWhite painted.rgb

instance (read : Text → Option Painted) : DecidablePred (Dazzles read) := fun _ =>
  inferInstanceAs (Decidable (∃ painted, painted ∈ read _ ∧ _))

/-- A call of `rgb` or of `hsl` in the text is nearly white. -/
def Glares (text : Text) : Prop :=
  (∃ body ∈ calls ['r', 'g', 'b'] text, Dazzles parseRgb? body) ∨
    ∃ body ∈ calls ['h', 's', 'l'] text, Dazzles parseHsl? body

instance (text : Text) : Decidable (Glares text) := inferInstanceAs (Decidable (_ ∨ _))

theorem dazzles_shear {name : Text} (callName : CallName name) {read : Text → Option Painted}
    (blind : ∀ body, read (shear body) = read body) {text new : Text}
    (same : shear new = shear text) :
    (∃ body ∈ calls name new, Dazzles read body) ↔ ∃ body ∈ calls name text, Dazzles read body := by
  have shorn (text : Text) : (∃ body ∈ calls name (shear text), Dazzles read body) ↔
      ∃ body ∈ calls name text, Dazzles read body := by
    simp only [calls_shear callName, List.mem_map, exists_exists_and_eq_and, Dazzles, blind]
  rw [← shorn new, same, shorn text]

theorem hexDigit?_le (c : Char) : (hexDigit? c).getD 0 ≤ 15 := by
  cases digit : isHexDigit c with
  | false =>
    have none : hexDigit? c = none := by simpa [isHexDigit] using digit
    simp [none]
  | true =>
    have bound :=
      @isHexDigit_induction (fun c => decide ((hexDigit? c).getD 0 ≤ 15)) (by decide) c digit
    simpa using bound

theorem not_nearlyWhite_of_readHex? {digits : Text} {rgb : Rgb Float}
    (read : readHex? digits = some rgb) : ¬ NearlyWhite rgb := by
  have pair (high low : Char) : pairValue high low ≤ 255 := by
    have left := hexDigit?_le high
    have right := hexDigit?_le low
    unfold pairValue
    omega
  obtain ⟨whole, found, rfl⟩ := Option.map_eq_some_iff.mp read
  unfold ofHex? at found
  split at found
  next =>
    obtain rfl := Option.some.inj found
    exact not_nearlyWhite_toFloat ⟨pair _ _, pair _ _, pair _ _⟩
  next => simp at found

theorem failsIff_convertHexLiteral (tuning : Tuning Float) (role : Role) (digits covered : Text) :
    FailsIff .divisionByZero False (convertHexLiteral tuning role digits covered) := by
  unfold convertHexLiteral
  split
  next => exact .returned _
  next rgb read =>
    apply ((failsIff_remap tuning role rgb).map _).congr
    exact (iff_false_intro (not_nearlyWhite_of_readHex? read)).symm

theorem failsIff_convertCall (tuning : Tuning Float) (role : Role) (read : Text → Option Painted)
    (body covered : Text) :
    FailsIff .divisionByZero (Dazzles read body) (convertCall tuning role read body covered) := by
  unfold convertCall Dazzles
  cases read body with
  | none => exact (FailsIff.returned _).congr (by simp)
  | some painted => exact ((failsIff_remap tuning role painted.rgb).map _).congr (by simp)

/-- A text is converted unless a call in it is nearly white. -/
theorem failsIff_convertPlain (tuning : Tuning Float) (role : Role) (text : Text) :
    FailsIff .divisionByZero (Glares text) (convertPlain tuning role text) := by
  unfold convertPlain
  have hex := @Text.failsIff_tryRewrite _ _ _ hexMatcher _ _
    (failsIff_convertHexLiteral tuning role) text
  have rgb := @Text.failsIff_tryRewrite _ _ _ rgbMatcher _ _
    (failsIff_convertCall tuning role parseRgb?)
  have hsl := @Text.failsIff_tryRewrite _ _ _ hslMatcher _ _
    (failsIff_convertCall tuning role parseHsl?)
  have later (hexed : Text)
      (first : Text.tryRewrite hexMatcher (convertHexLiteral tuning role) text = .ok hexed) :
      FailsIff .divisionByZero (Glares text)
        (Text.tryRewrite rgbMatcher (convertCall tuning role parseRgb?) hexed >>=
          Text.tryRewrite hslMatcher (convertCall tuning role parseHsl?)) := by
    have shorn := shear_converted first
    -- The second pass leaves the calls of the third as they were.
    have last (rgbed : Text)
        (second :
          Text.tryRewrite rgbMatcher (convertCall tuning role parseRgb?) hexed = .ok rgbed) :
        FailsIff .divisionByZero (∃ body ∈ calls ['h', 's', 'l'] hexed, Dazzles parseHsl? body)
          (Text.tryRewrite hslMatcher (convertCall tuning role parseHsl?) rgbed) := by
      rw [← calls_recast second]
      exact hsl rgbed
    apply ((rgb hexed).bind last).congr
    exact or_congr (dazzles_shear callName_rgb parseRgb?_shear shorn.symm)
      (dazzles_shear callName_hsl parseHsl?_shear shorn.symm)
  apply (hex.bind later).congr
  simp

end ThemeCss.Dark
