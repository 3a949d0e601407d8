import ThemeCss.Proofs.Text.Join
import ThemeCss.Text.Blank

/-!
# Trimmed texts

Trimming takes blanks off both ends and stops at ink, so a text is its trimmed form between two runs
of blanks, and a text that starts and ends with ink is its own trimmed form.
-/
namespace ThemeCss.Text

def Blank (text : Text) : Prop := ∀ c ∈ text, isBlank c = true

/-- Neither end is a blank. -/
structure Trimmed (text : Text) : Prop where
  starts : ∀ c ∈ text.head?, isBlank c = false
  ends : ∀ c ∈ text.getLast?, isBlank c = false

instance (text : Text) : Decidable (Blank text) := List.decidableBAll _ text

instance (text : Text) : Decidable (Trimmed text) :=
  have : Decidable (∀ c ∈ text.head?, isBlank c = false) := Option.decidableForallMem _
  have : Decidable (∀ c ∈ text.getLast?, isBlank c = false) := Option.decidableForallMem _
  decidable_of_iff ((∀ c ∈ text.head?, isBlank c = false) ∧ ∀ c ∈ text.getLast?, isBlank c = false)
    ⟨fun ⟨starts, ends⟩ => ⟨starts, ends⟩, fun ⟨starts, ends⟩ => ⟨starts, ends⟩⟩

theorem head?_append_of_ne_nil {first : Text} (some : first ≠ []) (second : Text) :
    (first ++ second).head? = first.head? := by
  obtain ⟨c, rest, rfl⟩ := List.exists_cons_of_ne_nil some
  rfl

theorem getLast?_append_of_ne_nil (first : Text) {second : Text} (some : second ≠ []) :
    (first ++ second).getLast? = second.getLast? := by
  rw [List.getLast?_append]
  cases ends : second.getLast? with
  | none => exact absurd (List.getLast?_eq_none_iff.mp ends) some
  | some d => rfl

/-- Ink at both ends, whatever stands between. -/
theorem Trimmed.between {first last : Text} (left : Trimmed first) (inkLeft : first ≠ [])
    (right : Trimmed last) (inkRight : last ≠ []) (middle : Text) :
    Trimmed (first ++ middle ++ last) := by
  constructor
  · rw [List.append_assoc, head?_append_of_ne_nil inkLeft]
    exact left.starts
  · rw [getLast?_append_of_ne_nil _ inkRight]
    exact right.ends

theorem blank_nil : Blank [] := by simp [Blank]

theorem Blank.append {first second : Text} (left : Blank first) (right : Blank second) :
    Blank (first ++ second) := by
  intro c member
  rcases List.mem_append.mp member with member | member
  · exact left c member
  · exact right c member

theorem blank_takeWhile (text : Text) : Blank (text.takeWhile isBlank) := fun _ member =>
  List.all_eq_true.mp List.all_takeWhile _ member

theorem trimLeft_blank_append {blanks : Text} (blank : Blank blanks) (text : Text) :
    trimLeft (blanks ++ text) = trimLeft text := by
  induction blanks with
  | nil => rfl
  | cons c rest ih =>
    simp only [Blank, List.forall_mem_cons] at blank
    simp only [trimLeft, List.cons_append, List.dropWhile_cons, blank.1, if_true]
    exact ih blank.2

theorem trimLeft_cons {c : Char} (ink : isBlank c = false) (text : Text) :
    trimLeft (c :: text) = c :: text := by
  simp [trimLeft, ink]

theorem trimLeft_of_starts {text : Text} (starts : ∀ c ∈ text.head?, isBlank c = false) :
    trimLeft text = text := by
  cases text with
  | nil => rfl
  | cons c rest => exact trimLeft_cons (starts c rfl) rest

theorem takeWhile_append_trimLeft (text : Text) :
    text.takeWhile isBlank ++ trimLeft text = text := List.takeWhile_append_dropWhile

theorem blank_of_trimLeft_eq_nil {text : Text} (none : trimLeft text = []) : Blank text := by
  rw [← takeWhile_append_trimLeft text, none, List.append_nil]
  exact blank_takeWhile text

theorem mem_trimLeft_of_ink {text : Text} {c : Char} (member : c ∈ text)
    (ink : isBlank c = false) : c ∈ trimLeft text := by
  rw [← takeWhile_append_trimLeft text] at member
  rcases List.mem_append.mp member with member | member
  · rw [blank_takeWhile text c member] at ink
    exact absurd ink (by decide)
  · exact member

theorem mem_of_mem_trimLeft {text : Text} {c : Char} (member : c ∈ trimLeft text) : c ∈ text :=
  (List.dropWhile_sublist _).subset member

theorem starts_trimLeft (text : Text) : ∀ c ∈ (trimLeft text).head?, isBlank c = false := by
  intro c member
  simp only [trimLeft] at member
  have outside := List.head?_dropWhile_not isBlank text
  rw [Option.mem_def.mp member] at outside
  simpa using outside

theorem trimRight_append_blank {blanks : Text} (blank : Blank blanks) (text : Text) :
    trimRight (text ++ blanks) = trimRight text := by
  have reversed : Blank blanks.reverse := fun c member => blank c (List.mem_reverse.mp member)
  simp only [trimRight, List.reverse_append]
  exact congrArg List.reverse (trimLeft_blank_append reversed text.reverse)

theorem trimRight_of_ends {text : Text} (ends : ∀ c ∈ text.getLast?, isBlank c = false) :
    trimRight text = text := by
  have starts : ∀ c ∈ text.reverse.head?, isBlank c = false := by
    simpa [List.head?_reverse] using ends
  have kept := trimLeft_of_starts starts
  simp only [trimLeft] at kept
  rw [trimRight, kept, List.reverse_reverse]

/-- What trimming on the right takes off is blank. -/
theorem exists_trimRight_append (text : Text) :
    ∃ blanks, Blank blanks ∧ text = trimRight text ++ blanks := by
  refine ⟨(text.reverse.takeWhile isBlank).reverse, ?_, ?_⟩
  · intro c member
    exact blank_takeWhile text.reverse c (List.mem_reverse.mp member)
  · have parts := congrArg List.reverse (takeWhile_append_trimLeft text.reverse)
    rw [List.reverse_append, List.reverse_reverse] at parts
    exact parts.symm

theorem ends_trimRight (text : Text) : ∀ c ∈ (trimRight text).getLast?, isBlank c = false := by
  have starts := starts_trimLeft text.reverse
  simpa [trimRight, trimLeft, List.getLast?_reverse] using starts

/-- A text is its trimmed form between two runs of blanks. -/
theorem exists_trim (text : Text) :
    ∃ before after, Blank before ∧ Blank after ∧ text = before ++ trim text ++ after := by
  obtain ⟨after, blank, parts⟩ := exists_trimRight_append (trimLeft text)
  refine ⟨text.takeWhile isBlank, after, blank_takeWhile text, blank, ?_⟩
  rw [List.append_assoc, trim, ← parts, takeWhile_append_trimLeft]

theorem trim_blank_append {blanks : Text} (blank : Blank blanks) (text : Text) :
    trim (blanks ++ text) = trim text := by
  rw [trim, trim, trimLeft_blank_append blank]

theorem trim_of_trimmed {text : Text} (trimmed : Trimmed text) : trim text = text := by
  rw [trim, trimLeft_of_starts trimmed.starts, trimRight_of_ends trimmed.ends]

theorem trimLeft_of_blank {text : Text} (blank : Blank text) : trimLeft text = [] := by
  simpa [trimLeft] using trimLeft_blank_append blank []

theorem trim_of_blank {text : Text} (blank : Blank text) : trim text = [] := by
  rw [trim, trimLeft_of_blank blank]
  rfl

theorem trimLeft_append {text : Text} (ink : trimLeft text ≠ []) (rest : Text) :
    trimLeft (text ++ rest) = trimLeft text ++ rest := by
  have leading := trimLeft_blank_append (blank_takeWhile text)
  obtain ⟨c, tail, start⟩ := List.exists_cons_of_ne_nil ink
  have starts := starts_trimLeft text
  rw [start] at starts
  conv => lhs; rw [← takeWhile_append_trimLeft text, List.append_assoc, leading, start]
  rw [start]
  exact trimLeft_cons (starts c rfl) _

theorem trim_append_blank {blanks : Text} (blank : Blank blanks) (text : Text) :
    trim (text ++ blanks) = trim text := by
  -- Without ink the blanks behind are blanks in front, and trimming on the left takes them all.
  by_cases ink : trimLeft text = []
  · have nothing : Blank text := by
      rw [← takeWhile_append_trimLeft text, ink, List.append_nil]
      exact blank_takeWhile text
    rw [trim_of_blank nothing, trim_of_blank (nothing.append blank)]
  · rw [trim, trim, trimLeft_append ink, trimRight_append_blank blank]

theorem trim_between {before after text : Text} (left : Blank before) (right : Blank after) :
    trim (before ++ text ++ after) = trim text := by
  rw [trim_append_blank right, trim_blank_append left]

theorem trimmed_trim (text : Text) : Trimmed (trim text) := by
  refine ⟨?_, ends_trimRight _⟩
  intro c member
  -- Trimming on the right keeps the start of what was trimmed on the left.
  obtain ⟨blanks, blank, parts⟩ := exists_trimRight_append (trimLeft text)
  apply starts_trimLeft text c
  rw [parts]
  cases trimmed : trim text with
  | nil => simp [trimmed] at member
  | cons first rest =>
    rw [trim] at trimmed
    rw [trim, trimmed] at member
    rw [trimmed]
    simpa using member

theorem trim_trim (text : Text) : trim (trim text) = trim text :=
  trim_of_trimmed (trimmed_trim text)

/-- Trimming on the right does not touch the first ink. -/
theorem head?_trimLeft (text : Text) : (trimLeft text).head? = (trim text).head? := by
  obtain ⟨blanks, blank, parts⟩ := exists_trimRight_append (trimLeft text)
  -- No ink at all, or the first ink is left on both sides.
  cases trimmed : trim text with
  | nil =>
    rw [trim] at trimmed
    rw [trimmed, List.nil_append] at parts
    have none := trimLeft_of_blank (parts ▸ blank : Blank (trimLeft text))
    rw [trimLeft_of_starts (starts_trimLeft text)] at none
    rw [none]
  | cons c rest =>
    rw [trim] at trimmed
    rw [parts, trimmed]
    rfl

theorem trim_eq_nil_iff {text : Text} : trim text = [] ↔ Blank text := by
  constructor
  · intro nothing
    obtain ⟨before, after, left, right, parts⟩ := exists_trim text
    rw [parts, nothing, List.append_nil]
    exact left.append right
  · exact trim_of_blank

theorem mem_of_mem_trim {text : Text} {c : Char} (member : c ∈ trim text) : c ∈ text := by
  obtain ⟨before, after, _, _, parts⟩ := exists_trim text
  rw [parts]
  simp [member]

theorem mem_trim_of_ink {text : Text} {c : Char} (member : c ∈ text) (ink : isBlank c = false) :
    c ∈ trim text := by
  obtain ⟨before, after, left, right, parts⟩ := exists_trim text
  rw [parts] at member
  rcases List.mem_append.mp member with member | member
  · rcases List.mem_append.mp member with member | member
    · simp [left c member] at ink
    · exact member
  · simp [right c member] at ink

theorem trim_inside (text : Text) : trim text <:+: text := by
  obtain ⟨before, after, _, _, parts⟩ := exists_trim text
  exact ⟨before, after, parts.symm⟩

/-- Parts with ink at both ends are joined to a text with ink at both ends. -/
theorem trimmed_join {glue : Text} {parts : List Text}
    (inked : ∀ part ∈ parts, part ≠ [] ∧ Trimmed part) : Trimmed (join glue parts) := by
  induction parts with
  | nil => exact ⟨by simp [join], by simp [join]⟩
  | cons part others ih =>
    simp only [List.forall_mem_cons] at inked
    cases others with
    | nil => simpa [join] using inked.1.2
    | cons other others =>
      have rest := ih inked.2
      have some : join glue (other :: others) ≠ [] := by
        cases others with
        | nil => simpa [join] using (inked.2 other (List.mem_cons_self ..)).1
        | cons next others =>
          simp [join_cons_cons, (inked.2 other (List.mem_cons_self ..)).1]
      rw [join_cons_cons, ← List.append_assoc]
      exact inked.1.2.between inked.1.1 rest some glue

end ThemeCss.Text
