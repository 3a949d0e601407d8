import ThemeCss.Inline.Style
import ThemeCss.Proofs.Lint.Leftover
import ThemeCss.Proofs.Sheet.Declaration
import ThemeCss.Proofs.Text.Lowercase

/-!
# Undecoded styles

A style is read as declarations from its decoded text and checked in its written form, in which some
characters stand as references. A scan takes a reference for ordinary text: nothing is lost when it
stands for an ampersand or an angle bracket, but a quote that is written as one opens and closes
nothing. References to custom properties are checked in the whole style at once, so those of a value
are met if the names before it leave no string open.
-/
namespace ThemeCss.Text

open Scan

/-! ### Scanning lower case -/

/-- The backslash is the last character that a scan heeds. -/
theorem isOrdinary_of_lt {c : Char} (beyond : 0x5C < c.toNat) : isOrdinary c = true := by
  apply isOrdinary_of_not_mem
  intro member
  simp only [List.mem_cons, List.not_mem_nil, or_false] at member
  rcases member with rfl | rfl | rfl <;> exact absurd beyond (by decide)

theorem isOrdinary_ofNat {n : Nat} (beyond : 0x5C < n) : isOrdinary (Char.ofNat n) = true := by
  by_cases valid : n.isValidChar
  · apply isOrdinary_of_lt
    have number : (Char.ofNat n).toNat = n := by
      rw [Char.ofNat, dif_pos valid]
      rfl
    rwa [number]
  · rw [Char.ofNat, dif_neg valid]
    decide

theorem lt_image_of_mem_capitals {run : CaseRun} (listed : run ∈ capitals) : 0x5C < run.image := by
  have each : (capitals.all fun run => 0x5C < run.image) = true := by decide +kernel
  simpa using List.all_eq_true.mp each run listed

theorem lowerChar_ordinary {c : Char} (ordinary : isOrdinary c = true) :
    lowerChar c ≠ [] ∧ ∀ d ∈ lowerChar c, isOrdinary d = true := by
  rw [lowerChar]
  split
  next ascii =>
    have each : ∀ n < 0x80, isOrdinary (Char.ofNat n) = true →
        isOrdinary (Char.ofNat n).toLower = true := by decide
    have here := each c.toNat ascii
    rw [Char.ofNat_toNat] at here
    simpa using here ordinary
  next =>
    split
    · have each : ['i', Char.ofNat 0x307].all isOrdinary = true := by decide
      exact ⟨by simp, List.all_eq_true.mp each⟩
    · split
      next run found =>
        have image := lt_image_of_mem_capitals (List.mem_of_find?_eq_some found)
        simpa using isOrdinary_ofNat (Nat.lt_of_lt_of_le image (Nat.le_add_right _ _))
      next => simpa using ordinary

theorem lowerChar_of_heeded {c : Char} (heeded : isOrdinary c = false) : lowerChar c = [c] := by
  have special : c ∈ ['\'', '"', '\\'] := by
    apply Decidable.byContradiction
    intro other
    rw [isOrdinary_of_not_mem other] at heeded
    cases heeded
  simp only [List.mem_cons, List.not_mem_nil, or_false] at special
  rcases special with rfl | rfl | rfl <;> decide

/-- A scan of the lower-case form of a character comes to where a scan of the character comes. -/
theorem exists_lowerFrom_cons {mode : Mode} (sound : mode.Sound) (before : Text) (c : Char)
    (rest : Text) : ∃ image, lowerFrom before (c :: rest) = image ++ lowerFrom (c :: before) rest ∧
      mode.after image = mode.step c := by
  have single {c d : Char} (first : isOrdinary c = true) (second : isOrdinary d = true) :
      mode.after [c] = mode.step d := by
    rw [Mode.after_cons, Mode.after_nil, sound.step_ordinary first, sound.step_ordinary second]
  rw [lowerFrom]
  refine ⟨_, rfl, ?_⟩
  split
  next sigma =>
    have ordinary : isOrdinary c = true := isOrdinary_of_lt (by simp at sigma; omega)
    split
    · exact single (by decide) ordinary
    · exact single (by decide) ordinary
  next =>
    cases ordinary : isOrdinary c with
    | true =>
      obtain ⟨ink, each⟩ := lowerChar_ordinary ordinary
      rw [sound.after_ordinary each ink, sound.step_ordinary ordinary]
    | false => rw [lowerChar_of_heeded ordinary, Mode.after_cons, Mode.after_nil]

/-- Lower case changes nothing for a scan. -/
theorem after_lowerFrom {mode : Mode} (sound : mode.Sound) (before text : Text) :
    mode.after (lowerFrom before text) = mode.after text := by
  induction text generalizing mode before with
  | nil => rfl
  | cons c rest ih =>
    obtain ⟨image, parts, same⟩ := exists_lowerFrom_cons sound before c rest
    rw [parts, Mode.after_append, same, ih (sound.step c), Mode.after_cons]

end ThemeCss.Text

namespace ThemeCss.Lint

open Scan Sheet

/-! ### Values in the style -/

/-- An ordinary character behind a text that leaves no string open closes it. -/
theorem closed_concat {text : Text} (outside : (Mode.code.after text).quote = none) {c : Char}
    (ordinary : isOrdinary c = true) : Closed (text ++ [c]) := by
  rw [Closed, Mode.after_append, Mode.after_cons, Mode.after_nil,
    (Mode.sound_code.after text).step_ordinary ordinary, Mode.settled, outside]
  rfl

/-- The value of a chunk stands in code if the name before it leaves no string open. -/
theorem exists_front_value {chunk : Text} (valued : (Declaration.parse chunk).value ≠ [])
    (outside : (Mode.code.after (Declaration.parse chunk).property).quote = none) :
    ∃ front back, chunk = front ++ ((Declaration.parse chunk).value ++ back) ∧ Closed front := by
  rcases Declaration.colon_cases chunk with free | ⟨name, rest, free, rfl⟩
  · rw [Declaration.parse_of_colonFree free] at valued
    exact absurd rfl valued
  · obtain ⟨property, before, ⟨more, parts⟩, value, _⟩ := Declaration.parse_colon_cases free rest
    rw [property] at outside
    obtain ⟨left, right, leading, trailing, named⟩ := Text.exists_trim name
    obtain ⟨left', right', leading', _, valued'⟩ := Text.exists_trim rest
    obtain ⟨left'', right'', leading'', _, inner⟩ := Text.exists_trim before
    have open' : (Mode.code.after name).quote = none := by
      rw [named, Mode.after_append, Mode.after_append, (closed_of_blank leading).after]
      by_cases none : right = []
      · rw [none]
        exact outside
      · rw [(Mode.sound_code.after _).after_ordinary
          (fun c member => isOrdinary_of_blank (trailing c member)) none]
        exact outside
    refine ⟨name ++ [':'] ++ (left' ++ left''), right'' ++ (more ++ right'), ?_,
      (closed_concat open' (by decide)).append (closed_of_blank (leading'.append leading''))⟩
    rw [value]
    conv => lhs; rw [valued', ← parts, inner]
    simp

/-- A call in the value of a declaration is one in the style. -/
theorem hasReference_of_mem_parse {style : Text} {declaration : Declaration}
    (listed : declaration ∈ Inline.parse style)
    (outside : (Mode.code.after declaration.property).quote = none)
    (called : hasReference declaration.value = true) : hasReference style = true := by
  simp only [Inline.parse, List.mem_map, List.mem_filter, Declaration.parseAll] at listed
  obtain ⟨_, ⟨⟨chunk, cut, rfl⟩, wellFormed⟩, rfl⟩ := listed
  have valued := (Declaration.isMalformed_eq_false.mp (by simpa using wellFormed)).2
  -- The name is read in lower case, which leaves open what the name itself leaves open.
  have outside' : (Mode.code.after (Declaration.parse chunk).property).quote = none := by
    rw [Inline.lowerProperty] at outside
    split at outside
    · exact outside
    · rwa [Text.lower, Text.after_lowerFrom Mode.sound_code] at outside
  have same : (Inline.lowerProperty (Declaration.parse chunk)).value
      = (Declaration.parse chunk).value := by
    rw [Inline.lowerProperty]
    split <;> rfl
  rw [same] at called
  obtain ⟨front, back, whole, closed⟩ := exists_front_of_mem_chunks cut
  obtain ⟨front', back', whole', closed'⟩ := exists_front_value valued outside'
  obtain ⟨before, call, parts, code, starts⟩ := (hasReference_iff _).mp called
  obtain ⟨after, dropped⟩ := Option.isSome_iff_exists.mp starts
  obtain ⟨met, rfl, keyword⟩ := Text.exists_isKeyword dropped
  refine (hasReference_iff _).mpr ⟨front ++ (front' ++ before), met ++ (after ++ (back' ++ back)),
    ?_, closed.append (closed'.append code), ?_⟩
  · rw [whole]
    conv => lhs; rw [whole', parts]
    simp
  · rw [dropCall?, Text.dropKeyword?_of_isKeyword keyword]
    rfl

/-! ### Values as they are written -/

/-- A character that a scan passes over and that no call is spelled with. -/
def isIndifferent (c : Char) : Bool := isOrdinary c && Text.breaks callWord c

/-- A value and a form of it that is the same to a scan: some indifferent characters are words of
ordinary ones. -/
inductive Undecoded : Text → Text → Prop
  | nil : Undecoded [] []
  | same {value written : Text} (c : Char) (rest : Undecoded value written) :
      Undecoded (c :: value) (c :: written)
  | word {value written word : Text} {c : Char} (indifferent : isIndifferent c = true)
      (ink : word ≠ []) (ordinary : ∀ d ∈ word, isOrdinary d = true)
      (rest : Undecoded value written) : Undecoded (c :: value) (word ++ written)

namespace Undecoded

variable {value written : Text}

theorem exists_of_append {first second : Text} (undecoded : Undecoded (first ++ second) written) :
    ∃ before after, written = before ++ after ∧ Undecoded first before ∧
      Undecoded second after := by
  induction first generalizing written with
  | nil => exact ⟨[], written, rfl, .nil, undecoded⟩
  | cons c rest ih =>
    rw [List.cons_append] at undecoded
    cases undecoded with
    | same _ tail =>
      obtain ⟨before, after, rfl, left, right⟩ := ih tail
      exact ⟨c :: before, after, rfl, .same c left, right⟩
    | @word _ _ word _ indifferent ink ordinary tail =>
      obtain ⟨before, after, rfl, left, right⟩ := ih tail
      exact ⟨word ++ before, after, (List.append_assoc ..).symm,
        .word indifferent ink ordinary left, right⟩

theorem eq_of_different (undecoded : Undecoded value written)
    (different : ∀ c ∈ value, isIndifferent c = false) : written = value := by
  induction undecoded with
  | nil => rfl
  | same c _ ih => rw [ih fun d member => different d (List.mem_cons_of_mem _ member)]
  | word indifferent _ _ _ _ =>
    rw [different _ (List.mem_cons_self ..)] at indifferent
    cases indifferent

/-- A scan of the written form comes to where a scan of the value does. -/
theorem after_eq (undecoded : Undecoded value written) {mode : Mode} (sound : mode.Sound) :
    mode.after written = mode.after value := by
  induction undecoded generalizing mode with
  | nil => rfl
  | same c _ ih => exact ih (sound.step c)
  | word indifferent ink ordinary _ ih =>
    rw [Mode.after_append, sound.after_ordinary ordinary ink, Mode.after_cons,
      sound.step_ordinary (Bool.and_eq_true_iff.mp indifferent).1, ih sound.settled]

/-- No call goes through a word, so the written form holds those of the value. -/
theorem hasReference (undecoded : Undecoded value written)
    (called : Scan.hasReference value = true) : Scan.hasReference written = true := by
  obtain ⟨before, call, rfl, code, starts⟩ := (hasReference_iff _).mp called
  obtain ⟨after, dropped⟩ := Option.isSome_iff_exists.mp starts
  obtain ⟨met, rfl, keyword⟩ := Text.exists_isKeyword dropped
  obtain ⟨before', call', rfl, front, behind⟩ := undecoded.exists_of_append
  obtain ⟨met', after', rfl, spelled, _⟩ := behind.exists_of_append
  have different : ∀ c ∈ met, isIndifferent c = false := by
    intro c member
    have meets : Text.breaks callWord c ≠ true :=
      fun breaks => Text.not_mem_of_isKeyword breaks keyword member
    simp [isIndifferent, meets]
  obtain rfl := spelled.eq_of_different different
  refine (hasReference_iff _).mpr ⟨before', met' ++ after', rfl, ?_, ?_⟩
  · rw [Closed, front.after_eq Mode.sound_code, code.after]
  · rw [dropCall?, Text.dropKeyword?_of_isKeyword keyword]
    rfl

end Undecoded

/-! ### References to characters -/

/-- A word that stands for a character: an ampersand, a name or a number, and a semicolon. -/
def IsReference (word : Text) : Prop :=
  ∃ name, word = '&' :: (name ++ [';']) ∧ ∀ c ∈ name, c.isAlphanum = true ∨ c = '#'

theorem isReference_of_letters {name : Text} (letters : name.all Char.isAlphanum = true) :
    IsReference ('&' :: (name ++ [';'])) :=
  ⟨name, rfl, fun c member => .inl (List.all_eq_true.mp letters c member)⟩

theorem IsReference.ordinary {word : Text} (reference : IsReference word) :
    word ≠ [] ∧ ∀ c ∈ word, isOrdinary c = true := by
  obtain ⟨name, rfl, each⟩ := reference
  refine ⟨by simp, ?_⟩
  rw [List.forall_mem_cons, List.forall_mem_append, List.forall_mem_singleton]
  refine ⟨by decide, fun c member => isOrdinary_of_not_mem fun heeded => ?_, by decide⟩
  simp only [List.mem_cons, List.not_mem_nil, or_false] at heeded
  rcases heeded with rfl | rfl | rfl <;> exact absurd (each _ member) (by decide)

/-- A style, its shade and its written form. Each character of the style is written as itself or as
a reference, whichever names it; in the shade an ampersand stands where a reference is written. -/
inductive Encoded : Text → Text → Text → Prop
  | nil : Encoded [] [] []
  | same {style shade written : Text} (c : Char) (rest : Encoded style shade written) :
      Encoded (c :: style) (c :: shade) (c :: written)
  | reference {style shade written word : Text} (c : Char) (reference : IsReference word)
      (rest : Encoded style shade written) : Encoded (c :: style) ('&' :: shade) (word ++ written)

/-- Where a style and its shade differ, the style has an indifferent character. -/
def Shades (style shade : Text) : Prop :=
  ∀ pair ∈ style.zip shade, pair.1 = pair.2 ∨ isIndifferent pair.1 = true

/-- What is written as references hides nothing: they stand for indifferent characters, or the style
still refers without the characters that they stand for. -/
def Legible (style shade : Text) : Prop := Shades style shade ∨ hasReference shade = true

namespace Encoded

variable {style shade written : Text}

/-- A scan takes the written form for the shade. -/
theorem undecoded (encoded : Encoded style shade written) : Undecoded shade written := by
  induction encoded with
  | nil => exact .nil
  | same c _ ih => exact .same c ih
  | reference c reference _ ih =>
    exact .word (by decide) reference.ordinary.1 reference.ordinary.2 ih

theorem undecoded_shade (encoded : Encoded style shade written) (shades : Shades style shade) :
    Undecoded style shade := by
  induction encoded with
  | nil => exact .nil
  | same c _ ih => exact .same c (ih fun pair member => shades pair (List.mem_cons_of_mem _ member))
  | @reference style shade _ _ c _ _ ih =>
    have rest := ih fun pair member => shades pair (List.mem_cons_of_mem _ member)
    rcases shades (c, '&') (List.mem_cons_self ..) with same | indifferent
    · obtain rfl : c = '&' := same
      exact .same '&' rest
    · have ordinary : ∀ d ∈ ['&'], isOrdinary d = true := List.forall_mem_singleton.mpr rfl
      exact .word indifferent (by simp) ordinary rest

/-- The written form of a legible style refers if the style does. -/
theorem hasReference (encoded : Encoded style shade written) (legible : Legible style shade)
    (called : Scan.hasReference style = true) : Scan.hasReference written = true := by
  rcases legible with shades | shown
  · exact encoded.undecoded.hasReference ((encoded.undecoded_shade shades).hasReference called)
  · exact encoded.undecoded.hasReference shown

end Encoded

end ThemeCss.Lint
