import ThemeCss.Proofs.Text.Search
import ThemeCss.Text.Caseless

/-!
# Finding keywords

A keyword may be met partly in one text and partly in the next. A character that no letter of the
keyword meets keeps the two apart: what is met is met before it or behind it.
-/
namespace ThemeCss.Text

/-- A keyword may be met partly in one text and partly in the next. -/
theorem dropKeyword?_append_of_le {word first : Text} (second : Text)
    (short : first.length ≤ word.length) :
    dropKeyword? word (first ++ second)
      = if isKeyword (word.take first.length) first then
          dropKeyword? (word.drop first.length) second
        else none := by
  induction first generalizing word with
  | nil => simp [isKeyword, dropKeyword?]
  | cons c rest ih =>
    cases word with
    | nil => simp at short
    | cons letter word =>
      simp only [List.length_cons, Nat.add_le_add_iff_right] at short
      by_cases meets : meetsLetter letter c
      · simp [dropKeyword?, isKeyword, meets, ih short]
      · simp [dropKeyword?, isKeyword, meets]

theorem dropKeyword?_append_of_ge {word first : Text} (second : Text)
    (long : word.length ≤ first.length) :
    dropKeyword? word (first ++ second) = (dropKeyword? word first).map (· ++ second) := by
  induction word generalizing first with
  | nil => simp [dropKeyword?]
  | cons letter word ih =>
    cases first with
    | nil => simp at long
    | cons c rest =>
      simp only [List.length_cons, Nat.add_le_add_iff_right] at long
      by_cases meets : meetsLetter letter c
      · simp [dropKeyword?, meets, ih long]
      · simp [dropKeyword?, meets]

/-- A keyword is met part by part. -/
theorem dropKeyword?_append (first second text : Text) :
    dropKeyword? (first ++ second) text = (dropKeyword? first text).bind (dropKeyword? second) := by
  induction first generalizing text with
  | nil => rfl
  | cons letter word ih =>
    cases text with
    | nil => rfl
    | cons c rest =>
      rw [List.cons_append, dropKeyword?, dropKeyword?]
      split
      · exact ih rest
      · rfl

theorem isKeyword_length {word text : Text} (keyword : isKeyword word text = true) :
    text.length = word.length := by
  simpa using dropKeyword?_length (eq_of_beq keyword)

/-- The start of a keyword is the start of its letters. -/
theorem isKeyword_take {word first second : Text}
    (keyword : isKeyword word (first ++ second) = true) :
    isKeyword (word.take first.length) first = true := by
  have size := isKeyword_length keyword
  simp only [List.length_append] at size
  -- As long as the keyword, the whole text uses up `first` before it ends.
  rw [isKeyword, dropKeyword?_append_of_le second (by omega)] at keyword
  split at keyword
  · assumption
  · simp at keyword

theorem dropKeyword?_suffix {word text after : Text}
    (found : dropKeyword? word text = some after) : after <:+ text := by
  induction word generalizing text with
  | nil =>
    obtain rfl : text = after := Option.some.inj found
    exact List.suffix_refl text
  | cons letter word ih =>
    cases text with
    | nil => simp [dropKeyword?] at found
    | cons c text =>
      simp only [dropKeyword?] at found
      split at found
      · exact (ih found).trans (List.suffix_cons c text)
      · simp at found

theorem exists_meets_of_dropKeyword? {word text after : Text} {letter : Char}
    (listed : letter ∈ word) (found : dropKeyword? word text = some after) :
    ∃ c ∈ text, meetsLetter letter c = true := by
  induction word generalizing text with
  | nil => simp at listed
  | cons first word ih =>
    cases text with
    | nil => simp [dropKeyword?] at found
    | cons c text =>
      simp only [dropKeyword?] at found
      split at found
      next meets =>
        rcases List.mem_cons.mp listed with rfl | later
        · exact ⟨c, List.mem_cons_self .., meets⟩
        · obtain ⟨d, member, met⟩ := ih later found
          exact ⟨d, List.mem_cons_of_mem _ member, met⟩
      next => simp at found

/-- A keyword is held where a part at the end holds it. -/
theorem holdsKeyword_eq_false_of_append {word first second : Text}
    (free : holdsKeyword word (first ++ second) = false) : holdsKeyword word second = false := by
  induction first with
  | nil => exact free
  | cons c rest ih =>
    rw [List.cons_append, holdsKeyword, Bool.or_eq_false_iff] at free
    exact ih free.2

/-- A text that holds a keyword meets each of its letters. -/
theorem exists_meets_of_holdsKeyword {word text : Text} {letter : Char} (listed : letter ∈ word)
    (found : holdsKeyword word text = true) : ∃ c ∈ text, meetsLetter letter c = true := by
  induction text with
  | nil =>
    have none : word = [] := by simpa [holdsKeyword] using found
    simp [none] at listed
  | cons c rest ih =>
    simp only [holdsKeyword, Bool.or_eq_true] at found
    rcases found with starts | later
    · obtain ⟨after, dropped⟩ := Option.isSome_iff_exists.mp starts
      exact exists_meets_of_dropKeyword? listed dropped
    · obtain ⟨d, member, met⟩ := ih later
      exact ⟨d, List.mem_cons_of_mem _ member, met⟩

/-- Only the parenthesis itself meets the last letter of a call. -/
theorem eq_of_meets_parenthesis {c : Char} (meets : meetsLetter '(' c = true) : c = '(' := by
  have lower : c.toLower = '(' := by simpa [meetsLetter] using meets
  delta Char.toLower at lower
  split at lower
  -- No capital letter is lowered to a parenthesis.
  next upper =>
    have value : c.val + ('a'.val - 'A'.val) = '('.val := congrArg Char.val lower
    simp [UInt32.le_iff_toNat_le, ← UInt32.toNat_inj] at upper value
    omega
  next => exact lower

/-- No letter of the keyword meets the character. -/
def breaks (word : Text) (c : Char) : Bool := word.all fun letter => !meetsLetter letter c

/-- What breaks the keyword is not part of it. -/
theorem mem_of_dropKeyword?_breaks {word text after : Text} {c : Char}
    (apart : breaks word c = true) (found : dropKeyword? word text = some after)
    (member : c ∈ text) : c ∈ after := by
  induction word generalizing text with
  | nil =>
    obtain rfl : text = after := Option.some.inj found
    exact member
  | cons letter word ih =>
    simp only [breaks, List.all_cons, Bool.and_eq_true, Bool.not_eq_true'] at apart
    cases text with
    | nil => simp at member
    | cons d text =>
      simp only [dropKeyword?] at found
      split at found
      next meets =>
        -- The letter that was met is not the character, so it stands later.
        rcases List.mem_cons.mp member with rfl | later
        · rw [apart.1] at meets
          simp at meets
        · exact ih apart.2 found later
      next => simp at found

theorem not_mem_of_isKeyword {word text : Text} {c : Char} (apart : breaks word c = true)
    (keyword : isKeyword word text = true) : c ∉ text := by
  intro member
  have left := mem_of_dropKeyword?_breaks apart (eq_of_beq keyword) member
  simp at left

theorem avoids_of_isKeyword {word text stops : Text} (apart : stops.all (breaks word) = true)
    (keyword : isKeyword word text = true) : Avoids stops text := by
  intro c member stop
  exact not_mem_of_isKeyword (List.all_eq_true.mp apart c stop) keyword member

/-- What is dropped is the keyword, -/
theorem exists_isKeyword {word text after : Text} (found : dropKeyword? word text = some after) :
    ∃ met, text = met ++ after ∧ isKeyword word met = true := by
  obtain ⟨met, rfl⟩ := dropKeyword?_suffix found
  refine ⟨met, rfl, ?_⟩
  have size := dropKeyword?_length found
  simp only [List.length_append] at size
  rw [dropKeyword?_append_of_ge _ (by omega)] at found
  -- Nothing of what was met is left in front of what follows.
  obtain ⟨left, dropped, whole⟩ := Option.map_eq_some_iff.mp found
  have none : left = [] := by simpa using whole
  rw [isKeyword, dropped, none]
  rfl

/-- and the keyword is dropped from what follows it. -/
theorem dropKeyword?_of_isKeyword {word met : Text} (keyword : isKeyword word met = true)
    (after : Text) : dropKeyword? word (met ++ after) = some after := by
  have size := isKeyword_length keyword
  rw [dropKeyword?_append_of_ge _ (by omega), eq_of_beq keyword]
  rfl

theorem dropKeyword?_append_breaks {word : Text} {c : Char} (apart : breaks word c = true)
    (first second : Text) :
    dropKeyword? word (first ++ c :: second)
      = (dropKeyword? word first).map (· ++ c :: second) := by
  induction word generalizing first with
  | nil => rfl
  | cons letter word ih =>
    simp only [breaks, List.all_cons, Bool.and_eq_true, Bool.not_eq_true'] at apart
    cases first with
    | nil => simp [dropKeyword?, apart.1]
    | cons d rest =>
      by_cases meets : meetsLetter letter d
      · simp [dropKeyword?, meets, ih apart.2]
      · simp [dropKeyword?, meets]

theorem startsWithKeyword_append_breaks {word : Text} {c : Char} (apart : breaks word c = true)
    (first second : Text) :
    startsWithKeyword word (first ++ c :: second) = startsWithKeyword word first := by
  rw [startsWithKeyword, dropKeyword?_append_breaks apart, Option.isSome_map, startsWithKeyword]

/-- What stands before the character is not the keyword with what follows. -/
theorem isKeyword_append_breaks {word : Text} {c : Char} (apart : breaks word c = true)
    (first second : Text) : isKeyword word (first ++ c :: second) = false := by
  rw [isKeyword, dropKeyword?_append_breaks apart]
  cases dropKeyword? word first <;> simp

theorem holdsKeyword_append_breaks {letter : Char} {word : Text} {c : Char}
    (apart : breaks (letter :: word) c = true) (first second : Text) :
    holdsKeyword (letter :: word) (first ++ c :: second)
      = (holdsKeyword (letter :: word) first || holdsKeyword (letter :: word) second) := by
  induction first with
  -- A keyword cannot start at the character itself, which none of its letters meets.
  | nil =>
    have start := startsWithKeyword_append_breaks apart [] second
    rw [List.nil_append] at start ⊢
    simp only [holdsKeyword, start]
    rfl
  | cons d rest ih =>
    have start := startsWithKeyword_append_breaks apart (d :: rest) second
    rw [List.cons_append] at start ⊢
    rw [holdsKeyword, holdsKeyword, start, ih, Bool.or_assoc]

end ThemeCss.Text
