import ThemeCss.Proofs.Dark.Call

/-!
# Calls and hexadecimal literals

A pass over hexadecimal literals changes nothing but digits behind number signs. A text is shorn
when such digits, however many they are, count as one zero. Shearing moves no call and changes no
reading of its arguments: a name starts behind a zero where it starts behind a digit, no letter of a
name is a digit that it loses, and a number ends before a number sign.
-/
namespace ThemeCss.Dark

open Colour

/-- Where a character stands: behind a number sign, among digits behind one, or outside. -/
inductive Place where
  | outside
  | behind
  | among

def Place.after (c : Char) : Place := if c = '#' then .behind else .outside

/-- Digits behind a number sign count as one zero. -/
def shearFrom : Place → Text → Text
  | _, [] => []
  | .outside, c :: rest => c :: shearFrom (.after c) rest
  | .behind, c :: rest =>
    if isHexDigit c then '0' :: shearFrom .among rest else c :: shearFrom (.after c) rest
  | .among, c :: rest =>
    if isHexDigit c then shearFrom .among rest else c :: shearFrom (.after c) rest

def shear : Text → Text := shearFrom .outside

theorem shearFrom_cons_of_not (place : Place) {c : Char} (other : isHexDigit c = false)
    (rest : Text) : shearFrom place (c :: rest) = c :: shearFrom (.after c) rest := by
  cases place <;> simp [shearFrom, other]

/-- A character stays, unless it is a digit behind a sign: of those the first counts as a zero and
the others as nothing. -/
theorem shearFrom_cases (place : Place) (c : Char) (rest : Text) :
    shearFrom place (c :: rest) = c :: shearFrom (.after c) rest ∨
    isHexDigit c = true ∧
      (place = .behind ∧ shearFrom place (c :: rest) = '0' :: shearFrom .among rest ∨
        place = .among ∧ shearFrom place (c :: rest) = shearFrom .among rest) := by
  cases digit : isHexDigit c with
  | false => exact .inl (shearFrom_cons_of_not place digit rest)
  | true =>
    cases place with
    | outside => exact .inl rfl
    | behind => exact .inr ⟨rfl, .inl ⟨rfl, by simp only [shearFrom, digit, if_true]⟩⟩
    | among => exact .inr ⟨rfl, .inr ⟨rfl, by simp only [shearFrom, digit, if_true]⟩⟩

theorem shear_cons {c : Char} (other : c ≠ '#') (rest : Text) :
    shear (c :: rest) = c :: shear rest := by
  simp [shear, shearFrom, Place.after, other]

/-- Characters that neither start digits nor are digits. -/
def isAloof (c : Char) : Bool := c != '#' && !isHexDigit c

theorem isAloof_iff {c : Char} : isAloof c = true ↔ c ≠ '#' ∧ isHexDigit c = false := by
  simp [isAloof]

theorem isAloof_of_isBlank {c : Char} (blank : Text.isBlank c = true) : isAloof c = true := by
  rw [isAloof_iff]
  constructor
  · rintro rfl
    exact absurd blank (by decide)
  · cases digit : isHexDigit c with
    | false => rfl
    | true =>
      have ink := @isHexDigit_induction (fun c => !Text.isBlank c) (by decide) c digit
      simp [blank] at ink

theorem isAloof_of_isParenthesis {c : Char} (parenthesis : isParenthesis c = true) :
    isAloof c = true := by
  rcases eq_of_isParenthesis parenthesis with rfl | rfl <;> decide

/-- What stands behind an aloof character is shorn alone. -/
theorem shearFrom_append {c : Char} (aloof : isAloof c = true) (place : Place)
    (first second : Text) :
    shearFrom place (first ++ c :: second) = shearFrom place first ++ c :: shear second := by
  obtain ⟨sign, digit⟩ := isAloof_iff.mp aloof
  induction first generalizing place with
  | nil => simp [shearFrom_cons_of_not place digit, shearFrom, Place.after, sign, shear]
  | cons d rest ih => cases place <;> simp only [List.cons_append, shearFrom, ih] <;> split <;> simp

theorem shear_append {c : Char} (aloof : isAloof c = true) (first second : Text) :
    shear (first ++ c :: second) = shear first ++ c :: shear second :=
  shearFrom_append aloof .outside first second

theorem mem_shearFrom {c : Char} {place : Place} {text : Text}
    (member : c ∈ shearFrom place text) : c ∈ text ∨ c = '0' := by
  induction text generalizing place with
  | nil => cases place <;> simp [shearFrom] at member
  | cons d rest ih =>
    have later {place : Place} (held : c ∈ shearFrom place rest) : c ∈ d :: rest ∨ c = '0' :=
      (ih held).imp_left (List.mem_cons_of_mem d)
    rcases shearFrom_cases place d rest with kept | ⟨_, ⟨_, zero⟩ | ⟨_, gone⟩⟩
    · rw [kept] at member
      rcases List.mem_cons.mp member with rfl | held
      · exact .inl (List.mem_cons_self ..)
      · exact later held
    · rw [zero] at member
      exact (List.mem_cons.mp member).elim .inr later
    · rw [gone] at member
      exact later member

theorem shear_of_signFree {text : Text} (free : '#' ∉ text) : shear text = text := by
  induction text with
  | nil => rfl
  | cons c rest ih =>
    simp only [List.mem_cons, not_or] at free
    rw [shear_cons (Ne.symm free.1), ih free.2]

/-- Up to a number sign nothing changes. -/
theorem shear_sign {first : Text} (free : '#' ∉ first) (second : Text) :
    shear (first ++ '#' :: second) = first ++ '#' :: shearFrom .behind second := by
  induction first with
  | nil => simp [shear, shearFrom, Place.after]
  | cons c rest ih =>
    simp only [List.mem_cons, not_or] at free
    rw [List.cons_append, shear_cons (Ne.symm free.1), ih free.2]
    rfl

/-- A text is free of number signs or has a first one. -/
theorem exists_sign (text : Text) :
    '#' ∉ text ∨ ∃ first second, text = first ++ '#' :: second ∧ '#' ∉ first := by
  rcases Text.exists_stop (· == '#') text with free | ⟨first, c, second, rfl, sign, free⟩
  · left
    intro member
    simpa using free _ member
  · right
    obtain rfl : c = '#' := by simpa using sign
    refine ⟨first, second, rfl, ?_⟩
    intro member
    simpa using free _ member

theorem mem_sign_shear {text : Text} : '#' ∈ shear text ↔ '#' ∈ text := by
  rcases exists_sign text with free | ⟨first, second, rfl, free⟩
  · rw [shear_of_signFree free]
  · simp [shear_sign free]

/-! ### Blanks and words -/

theorem shear_of_blank {text : Text} (blank : Text.Blank text) : shear text = text := by
  apply shear_of_signFree
  intro member
  exact absurd (blank _ member) (by decide)

theorem trimLeft_shear (text : Text) : Text.trimLeft (shear text) = shear (Text.trimLeft text) := by
  induction text with
  | nil => rfl
  | cons c rest ih =>
    cases blank : Text.isBlank c with
    | true =>
      have aloof := (isAloof_iff.mp (isAloof_of_isBlank blank)).1
      rw [shear_cons aloof]
      simpa [Text.trimLeft, blank] using ih
    | false =>
      -- The first character stays, whatever it is.
      simp [shear, shearFrom, Text.trimLeft, blank]

theorem ink_shearFrom {place : Place} {text : Text} (ink : ∀ c ∈ text, (!Text.isBlank c) = true) :
    ∀ c ∈ shearFrom place text, (!Text.isBlank c) = true := by
  intro c member
  rcases mem_shearFrom member with held | rfl
  · exact ink c held
  · rfl

/-- The ink at the start is shorn alone, and so is what follows it. -/
theorem span_shearFrom (place : Place) (text : Text) :
    (shearFrom place text).takeWhile (!Text.isBlank ·)
        = shearFrom place (text.takeWhile (!Text.isBlank ·)) ∧
      (shearFrom place text).dropWhile (!Text.isBlank ·)
        = shear (text.dropWhile (!Text.isBlank ·)) := by
  rcases Text.exists_stop Text.isBlank text with free | ⟨first, c, second, rfl, blank, free⟩
  · have ink : ∀ c ∈ text, (!Text.isBlank c) = true := by simpa using free
    have shorn := @ink_shearFrom place text ink
    rw [Text.takeWhile_of_passes shorn, Text.takeWhile_of_passes ink,
      Text.dropWhile_of_passes shorn, Text.dropWhile_of_passes ink]
    exact ⟨rfl, rfl⟩
  · have ink : ∀ c ∈ first, (!Text.isBlank c) = true := by simpa using free
    have stops : (!Text.isBlank c) = false := by simp [blank]
    have shorn := @ink_shearFrom place first ink
    have aloof := isAloof_of_isBlank blank
    rw [shearFrom_append aloof, Text.takeWhile_stop shorn stops, Text.takeWhile_stop ink stops,
      Text.dropWhile_stop shorn stops, Text.dropWhile_stop ink stops,
      shear_cons (isAloof_iff.mp aloof).1]
    exact ⟨rfl, rfl⟩

theorem words_shear (text : Text) : Text.words (shear text) = (Text.words text).map shear := by
  fun_induction Text.words text with
  | case1 text start =>
    rw [Text.words.eq_def]
    split
    next => rfl
    next c rest other =>
      rw [trimLeft_shear, start] at other
      simp [shear, shearFrom] at other
  | case2 text c rest start ih =>
    obtain ⟨word, others⟩ := span_shearFrom (.after c) rest
    rw [Text.words.eq_def]
    split
    next other =>
      rw [trimLeft_shear, start] at other
      simp [shear, shearFrom] at other
    next d tail other =>
      rw [trimLeft_shear, start, shear, shearFrom] at other
      obtain ⟨rfl, rfl⟩ := List.cons.inj other
      rw [word, others, ih]
      rfl

/-! ### The ends -/

theorem head?_shear (text : Text) : (shear text).head? = text.head? := by
  cases text <;> rfl

/-- Only among digits can a text vanish. -/
theorem eq_nil_of_shearFrom_after {c : Char} {text : Text} (none : shearFrom (.after c) text = []) :
    text = [] := by
  cases text with
  | nil => rfl
  | cons d rest =>
    unfold Place.after at none
    split at none
    · simp only [shearFrom] at none
      split at none <;> simp at none
    · simp [shearFrom] at none

theorem getLast?_shearFrom {c : Char} {place : Place} {text : Text}
    (last : (shearFrom place text).getLast? = some c) : text.getLast? = some c ∨ c = '0' := by
  induction text generalizing place with
  | nil => cases place <;> simp [shearFrom] at last
  | cons d rest ih =>
    have later {place : Place} (held : (shearFrom place rest).getLast? = some c) :
        (d :: rest).getLast? = some c ∨ c = '0' := by
      refine (ih held).imp_left fun same => ?_
      rw [List.getLast?_cons, same]
      rfl
    rcases shearFrom_cases place d rest with kept | ⟨_, ⟨_, zero⟩ | ⟨_, gone⟩⟩
    · rw [kept, List.getLast?_cons] at last
      cases tail : (shearFrom (.after d) rest).getLast? with
      | some e =>
        obtain rfl : e = c := by simpa [tail] using last
        exact later tail
      | none =>
        obtain rfl := eq_nil_of_shearFrom_after (List.getLast?_eq_none_iff.mp tail)
        exact .inl (by simpa [tail] using last)
    · rw [zero, List.getLast?_cons] at last
      cases tail : (shearFrom .among rest).getLast? with
      | some e =>
        obtain rfl : e = c := by simpa [tail] using last
        exact later tail
      | none => exact .inr (by simpa [tail] using last.symm)
    · rw [gone] at last
      exact later last

theorem trimmed_shear {text : Text} (trimmed : Text.Trimmed text) : Text.Trimmed (shear text) := by
  constructor
  · rw [head?_shear]
    exact trimmed.1
  · intro c last
    rcases getLast?_shearFrom last with same | rfl
    · exact trimmed.2 c same
    · rfl

theorem shear_blank_append {blanks : Text} (blank : Text.Blank blanks) (text : Text) :
    shear (blanks ++ text) = blanks ++ shear text := by
  induction blanks with
  | nil => rfl
  | cons c rest ih =>
    have each := List.forall_mem_cons.mp blank
    rw [List.cons_append, shear_cons (isAloof_iff.mp (isAloof_of_isBlank each.1)).1, ih each.2]
    rfl

theorem shear_append_blank {blanks : Text} (blank : Text.Blank blanks) (text : Text) :
    shear (text ++ blanks) = shear text ++ blanks := by
  cases blanks with
  | nil => simp
  | cons c rest =>
    have each := List.forall_mem_cons.mp blank
    rw [shear_append (isAloof_of_isBlank each.1), shear_of_blank each.2]

theorem trim_shear (text : Text) : Text.trim (shear text) = shear (Text.trim text) := by
  obtain ⟨before, after, left, right, whole⟩ := Text.exists_trim text
  rw [whole, shear_append_blank right, shear_blank_append left, Text.trim_between left right,
    Text.trim_between left right, Text.trim_of_trimmed (trimmed_shear (Text.trimmed_trim text)),
    Text.trim_trim]

/-! ### Numbers -/

theorem dropSign_sign (first second : Text) :
    Decimal.dropSign (first ++ '#' :: second)
      = ((Decimal.dropSign first).1, (Decimal.dropSign first).2 ++ '#' :: second) := by
  cases first with
  | nil => rfl
  | cons c rest =>
    unfold Decimal.dropSign
    split <;> split <;> simp_all

theorem readExponent_sign (first second : Text) :
    Decimal.readExponent (first ++ '#' :: second) = Decimal.readExponent first := by
  have stops : Text.isDigit '#' = false := by decide
  cases first with
  | nil => rfl
  | cons c rest =>
    simp only [List.cons_append, Decimal.readExponent, dropSign_sign,
      Text.takeWhile_append_stop stops]

/-- A number ends before a number sign. -/
theorem readLeading?_sign (first second : Text) :
    Decimal.readLeading? (first ++ '#' :: second) = Decimal.readLeading? first := by
  have stops : Text.isDigit '#' = false := by decide
  simp only [Decimal.readLeading?, dropSign_sign, Text.takeWhile_append_stop stops,
    Text.dropWhile_append_stop stops]
  cases behind : (Decimal.dropSign first).2.dropWhile Text.isDigit with
  | nil => rfl
  | cons c rest =>
    simp only [List.cons_append]
    by_cases point : c = '.'
    · subst point
      simp only [Text.takeWhile_append_stop stops, Text.dropWhile_append_stop stops,
        readExponent_sign]
    · have whole := readExponent_sign (c :: rest) second
      rw [List.cons_append] at whole
      simp [point, whole]

theorem readLeading?_shear (text : Text) :
    Decimal.readLeading? (shear text) = Decimal.readLeading? text := by
  rcases exists_sign text with free | ⟨first, second, rfl, free⟩
  · rw [shear_of_signFree free]
  · rw [shear_sign free, readLeading?_sign, readLeading?_sign]

theorem parseNumber?_shear (token : Text) : parseNumber? (shear token) = parseNumber? token := by
  rw [parseNumber?, parseNumber?, Decimal.parse?, Decimal.parse?, trim_shear, readLeading?_shear]

theorem isPercentage_shear (token : Text) : isPercentage (shear token) = isPercentage token := by
  rw [Bool.eq_iff_iff]
  simp only [isPercentage, beq_iff_eq]
  constructor
  · intro last
    exact (getLast?_shearFrom last).resolve_right (by decide)
  · intro last
    obtain ⟨first, rfl⟩ := List.getLast?_eq_some_iff.mp last
    have aloof : isAloof '%' = true := by decide
    rw [shear_append aloof]
    exact List.getLast?_concat

theorem parseChannel?_shear (token : Text) : parseChannel? (shear token) = parseChannel? token := by
  rw [parseChannel?, parseChannel?, parseNumber?_shear, isPercentage_shear]

theorem parseAlpha?_shear (token : Option Text) :
    parseAlpha? (token.map shear) = parseAlpha? token := by
  cases token with
  | none => rfl
  | some token =>
    simp only [Option.map_some, parseAlpha?, parseNumber?_shear, trim_shear, isPercentage_shear]

/-! ### Arguments -/

theorem map_shearFrom (place : Place) (text : Text) :
    shearFrom place (text.map fun c => if c = ',' then ' ' else c)
      = (shearFrom place text).map fun c => if c = ',' then ' ' else c := by
  induction text generalizing place with
  | nil => cases place <;> rfl
  | cons c rest ih =>
    rw [List.map_cons]
    by_cases comma : c = ','
    · subst comma
      rw [if_pos rfl, shearFrom_cons_of_not place (by decide),
        shearFrom_cons_of_not place (by decide)]
      exact congrArg (' ' :: ·) (ih .outside)
    · rw [if_neg comma]
      cases place with
      | outside => simp [shearFrom, ih, comma]
      | behind => cases digit : isHexDigit c <;> simp [shearFrom, ih, digit, comma]
      | among => cases digit : isHexDigit c <;> simp [shearFrom, ih, digit, comma]

theorem separate_shear (text : Text) :
    Text.words ((shear text).map fun c => if c = ',' then ' ' else c)
      = (Text.words (text.map fun c => if c = ',' then ' ' else c)).map shear := by
  rw [shear, ← map_shearFrom]
  exact words_shear _

theorem splitChannels_shear (body : Text) :
    splitChannels (shear body)
      = ((splitChannels body).1.map shear, (splitChannels body).2.map shear) := by
  rcases Text.exists_stop (· == '/') body with free | ⟨first, c, second, rfl, slash, free⟩
  · have absent : '/' ∉ body := fun member => by simpa using free _ member
    have shorn : '/' ∉ shear body := by
      intro member
      exact absent ((mem_shearFrom member).resolve_right (by decide))
    simp only [splitChannels, Text.splitAtWord?_singleton_eq_none absent,
      Text.splitAtWord?_singleton_eq_none shorn, separate_shear]
    match Text.words (body.map fun c => if c = ',' then ' ' else c) with
    | [] | [_] | [_, _] | [_, _, _] | [_, _, _, _] | _ :: _ :: _ :: _ :: _ :: _ => rfl
  · obtain rfl : c = '/' := by simpa using slash
    have absent : '/' ∉ first := fun member => by simpa using free _ member
    have shorn : '/' ∉ shear first := by
      intro member
      exact absent ((mem_shearFrom member).resolve_right (by decide))
    rw [shear_append (by decide)]
    simp only [splitChannels, Text.splitAtWord?_singleton absent,
      Text.splitAtWord?_singleton shorn, separate_shear, trim_shear, Option.map_some]

theorem parseRgb?_shear (body : Text) : parseRgb? (shear body) = parseRgb? body := by
  unfold parseRgb?
  rw [splitChannels_shear]
  obtain ⟨parts, alpha⟩ := splitChannels body
  match parts with
  | [_, _, _] => simp only [List.map_cons, List.map_nil, parseChannel?_shear, parseAlpha?_shear]
  | [] | [_] | [_, _] | _ :: _ :: _ :: _ :: _ => rfl

theorem parseHsl?_shear (body : Text) : parseHsl? (shear body) = parseHsl? body := by
  unfold parseHsl?
  rw [splitChannels_shear]
  obtain ⟨parts, alpha⟩ := splitChannels body
  match parts with
  | [_, _, _] => simp only [List.map_cons, List.map_nil, parseNumber?_shear, parseAlpha?_shear]
  | [] | [_] | [_, _] | _ :: _ :: _ :: _ :: _ => rfl

end ThemeCss.Dark
