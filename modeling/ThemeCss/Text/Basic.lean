/-!
# Text

A text is the sequence of its characters, so every index, length and span counts characters and
every function on text is a recursion on a list. This module holds the searches and replacements
that ask for exact characters; they are total and never look behind the place they stand at.
-/
namespace ThemeCss

abbrev Text := List Char

namespace Text

/-- What follows `word` when the text starts with it. -/
def dropWord? : Text → Text → Option Text
  | [], text => some text
  | _ :: _, [] => none
  | letter :: word, c :: text => if c = letter then dropWord? word text else none

/-- The text before the first occurrence of `word` and the text after it. -/
def splitAtWord? (word : Text) : Text → Option (Text × Text)
  | [] => (dropWord? word []).map fun after => ([], after)
  | c :: rest =>
    match dropWord? word (c :: rest) with
    | some after => some ([], after)
    | none => (splitAtWord? word rest).map fun (before, after) => (c :: before, after)

def holds (word text : Text) : Bool := (splitAtWord? word text).isSome

def startsWith (word text : Text) : Bool := (dropWord? word text).isSome

/-- Joins the parts with `glue` between neighbours. -/
def join (glue : Text) (parts : List Text) : Text := glue.intercalate parts

/-- The number of line breaks, so a place's line is one more than those before it. -/
def newlines (text : Text) : Nat := text.count '\n'

/-- Carriage returns, alone or before a line break, become line breaks. -/
def unifyLineEnds : Text → Text
  | [] => []
  | '\r' :: '\n' :: rest => '\n' :: unifyLineEnds rest
  | '\r' :: rest => '\n' :: unifyLineEnds rest
  | c :: rest => c :: unifyLineEnds rest

theorem dropWord?_eq_some_iff {word text after : Text} :
    dropWord? word text = some after ↔ text = word ++ after := by
  induction word generalizing text with
  | nil => simp [dropWord?, eq_comm]
  | cons letter word ih =>
    cases text with
    | nil => simp [dropWord?]
    | cons c text =>
      by_cases same : c = letter
      · simp [dropWord?, same, ih]
      · simp [dropWord?, same]

/-- Splitting at a word loses nothing but the word. -/
theorem splitAtWord?_sound {word text before after : Text}
    (found : splitAtWord? word text = some (before, after)) : text = before ++ word ++ after := by
  induction text generalizing before with
  | nil =>
    simp only [splitAtWord?, Option.map_eq_some_iff, Prod.mk.injEq] at found
    obtain ⟨rest, dropped, rfl, rfl⟩ := found
    simpa using dropWord?_eq_some_iff.mp dropped
  | cons c rest ih =>
    simp only [splitAtWord?] at found
    split at found
    next tail dropped =>
      simp only [Option.some.injEq, Prod.mk.injEq] at found
      obtain ⟨rfl, rfl⟩ := found
      simpa using dropWord?_eq_some_iff.mp dropped
    next =>
      simp only [Option.map_eq_some_iff, Prod.mk.injEq] at found
      obtain ⟨⟨head, tail⟩, deeper, rfl, rfl⟩ := found
      simp [ih deeper]

theorem splitAtWord?_length {word text before after : Text}
    (found : splitAtWord? word text = some (before, after)) :
    text.length = before.length + word.length + after.length := by
  have parts := splitAtWord?_sound found
  simp [parts, Nat.add_assoc]

/-- Replaces every occurrence of a word from left to right; an empty word occurs at every place. -/
def replace (word replacement text : Text) : Text :=
  match word with
  | [] => replacement ++ text.flatMap fun c => c :: replacement
  | letter :: more =>
    match _found : splitAtWord? (letter :: more) text with
    | none => text
    | some (before, after) => before ++ replacement ++ replace (letter :: more) replacement after
termination_by text.length
decreasing_by
  have size := splitAtWord?_length _found
  simp only [List.length_cons] at size
  omega

end Text
end ThemeCss
