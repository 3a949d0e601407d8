import ThemeCss.Text.Basic

/-!
# Finding words

A text holds a word exactly when it is some text, the word and some more text. So what holds no word
has no part that does, and a search for one character stops at its first occurrence.
-/
namespace ThemeCss.Text

/-- No character of the text is one of these. -/
def Avoids (stops text : Text) : Prop := ∀ c ∈ text, c ∉ stops

instance (stops text : Text) : Decidable (Avoids stops text) := List.decidableBAll _ text

theorem Avoids.of_subset {few stops text : Text} (avoids : Avoids stops text)
    (subset : few ⊆ stops) : Avoids few text := fun c member stop => avoids c member (subset stop)

/-- A character of a kind is none of the stops if no stop is of that kind. -/
theorem not_mem_of_kind {kind : Char → Bool} {stops : Text} (others : stops.any kind = false)
    {c : Char} (same : kind c = true) : c ∉ stops := by
  intro stop
  have other := List.any_eq_false.mp others c stop
  exact other same

theorem splitAtWord?_nil (word : Text) :
    splitAtWord? word [] = if word = [] then some ([], []) else none := by
  cases word <;> simp [splitAtWord?, dropWord?]

theorem holds_append {word : Text} (before after : Text) :
    holds word (before ++ (word ++ after)) = true := by
  induction before with
  -- The word stands at the start; the empty word does even in the empty text.
  | nil =>
    have start : dropWord? word (word ++ after) = some after := dropWord?_eq_some_iff.mpr rfl
    rw [List.nil_append]
    cases whole : word ++ after with
    | nil =>
      have nothing : word = [] := (List.append_eq_nil_iff.mp whole).1
      simp [holds, splitAtWord?_nil, nothing]
    | cons c rest =>
      rw [whole] at start
      simp [holds, splitAtWord?, start]
  | cons c rest ih =>
    simp only [holds, List.cons_append, splitAtWord?] at ih ⊢
    split
    · rfl
    · simpa using ih

theorem holds_iff {word text : Text} :
    holds word text = true ↔ ∃ before after, text = before ++ (word ++ after) := by
  constructor
  · intro found
    obtain ⟨⟨before, after⟩, split⟩ := Option.isSome_iff_exists.mp found
    exact ⟨before, after, by rw [splitAtWord?_sound split, List.append_assoc]⟩
  · rintro ⟨before, after, rfl⟩
    exact holds_append before after

theorem holds_of_part {word part text : Text} (inside : part <:+: text)
    (found : holds word part = true) : holds word text = true := by
  obtain ⟨before, after, rfl⟩ := holds_iff.mp found
  obtain ⟨left, right, rfl⟩ := inside
  exact holds_iff.mpr ⟨left ++ before, after ++ right, by simp⟩

theorem not_holds_of_part {word part text : Text} (free : holds word text = false)
    (inside : part <:+: text) : holds word part = false := by
  cases found : holds word part with
  | false => rfl
  | true => rw [holds_of_part inside found] at free; exact free

/-- A search for a character stops at its first occurrence. -/
theorem splitAtWord?_singleton {letter : Char} {before : Text} (absent : letter ∉ before)
    (after : Text) : splitAtWord? [letter] (before ++ letter :: after) = some (before, after) := by
  induction before with
  | nil => simp [splitAtWord?, dropWord?]
  | cons c rest ih =>
    simp only [List.mem_cons, not_or] at absent
    have other : c ≠ letter := fun same => absent.1 same.symm
    simp [splitAtWord?, dropWord?, other, ih absent.2]

theorem splitAtWord?_singleton_eq_none {letter : Char} {text : Text} (absent : letter ∉ text) :
    splitAtWord? [letter] text = none := by
  induction text with
  | nil => rfl
  | cons c rest ih =>
    simp only [List.mem_cons, not_or] at absent
    have other : c ≠ letter := fun same => absent.1 same.symm
    simp [splitAtWord?, dropWord?, other, ih absent.2]

/-! ### The part up to a character -/

/-- A text is free of some characters or has a first one of them. -/
theorem exists_stop (stops : Char → Bool) (text : Text) :
    (∀ c ∈ text, stops c = false) ∨
      ∃ before c after, text = before ++ c :: after ∧ stops c = true ∧
        ∀ d ∈ before, stops d = false := by
  induction text with
  | nil => exact .inl (by simp)
  | cons c rest ih =>
    cases here : stops c with
    | true => exact .inr ⟨[], c, rest, rfl, here, by simp⟩
    | false =>
      rcases ih with free | ⟨before, d, after, rfl, stop, free⟩
      · exact .inl (List.forall_mem_cons.mpr ⟨here, free⟩)
      · exact .inr ⟨c :: before, d, after, rfl, stop, List.forall_mem_cons.mpr ⟨here, free⟩⟩

/-- Two readings of a text up to a character agree, or the second one goes further. -/
theorem append_cons_cases {first second rest after : Text} {c stop : Char}
    (free : stop ∉ first) (same : first ++ c :: rest = second ++ stop :: after) :
    (second = first ∧ c = stop ∧ rest = after) ∨
      ∃ further, second = first ++ c :: further ∧ rest = further ++ stop :: after := by
  rcases List.append_eq_append_iff.mp same with ⟨gap, rfl, parts⟩ | ⟨gap, rfl, parts⟩
  · cases gap with
    | nil =>
      obtain ⟨rfl, rfl⟩ := List.cons.inj parts
      exact .inl ⟨List.append_nil _, rfl, rfl⟩
    | cons d further =>
      obtain ⟨rfl, rfl⟩ := List.cons.inj parts
      exact .inr ⟨further, rfl, rfl⟩
  · cases gap with
    | nil =>
      obtain ⟨rfl, rfl⟩ := List.cons.inj parts
      exact .inl ⟨(List.append_nil _).symm, rfl, rfl⟩
    | cons d further =>
      obtain ⟨rfl, _⟩ := List.cons.inj parts
      exact absurd (by simp) free

/-- A text is read up to a character in one way. -/
theorem append_cons_unique {first second rest after : Text} {stop : Char} (free : stop ∉ first)
    (absent : stop ∉ second) (same : first ++ stop :: rest = second ++ stop :: after) :
    first = second ∧ rest = after := by
  obtain ⟨rfl, _, rfl⟩ | ⟨further, rfl, _⟩ := append_cons_cases free same
  · exact ⟨rfl, rfl⟩
  · exact absurd (by simp) absent

section takeWhile

variable {p : Char → Bool} {text : Text} (passes : ∀ c ∈ text, p c = true)
include passes

theorem takeWhile_of_passes : text.takeWhile p = text := by
  have whole : (text ++ []).takeWhile p = text ++ [].takeWhile p :=
    List.takeWhile_append_of_pos passes
  simpa using whole

theorem dropWhile_of_passes : text.dropWhile p = [] := by
  have whole : (text ++ []).dropWhile p = [].dropWhile p := List.dropWhile_append_of_pos passes
  simpa using whole

theorem takeWhile_stop {c : Char} (stops : p c = false) (after : Text) :
    (text ++ c :: after).takeWhile p = text := by
  rw [List.takeWhile_append_of_pos passes, List.takeWhile_cons, stops]
  simp

theorem dropWhile_stop {c : Char} (stops : p c = false) (after : Text) :
    (text ++ c :: after).dropWhile p = c :: after := by
  rw [List.dropWhile_append_of_pos passes, List.dropWhile_cons, stops]
  rfl

end takeWhile

section stop

variable {p : Char → Bool} {c : Char} (stops : p c = false)
include stops

/-- A run does not go past a character that is none of it. -/
theorem takeWhile_append_stop (text after : Text) :
    (text ++ c :: after).takeWhile p = text.takeWhile p := by
  induction text with
  | nil => simp [stops]
  | cons d rest ih => cases here : p d <;> simp [here, ih]

theorem dropWhile_append_stop (text after : Text) :
    (text ++ c :: after).dropWhile p = text.dropWhile p ++ c :: after := by
  induction text with
  | nil => simp [stops]
  | cons d rest ih => cases here : p d <;> simp [here, ih]

end stop

end ThemeCss.Text
