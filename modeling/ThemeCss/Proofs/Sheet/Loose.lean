import ThemeCss.Proofs.Sheet.Declaration
import ThemeCss.Proofs.Variables.Tail

/-!
# Declarations as they are read

A declaration with a name and a value is read back with both trimmed, and with a mark that its value
ends in taken for its importance. What the mark is written with is a tail of the value, so a change
of values that leaves tails alone can be made before the mark is taken off or after.
-/
namespace ThemeCss

namespace Scan

/-- Inert text behind a text that it leaves whole can be exchanged. -/
theorem Whole.exchange_tail {text tail other : Text} (inert : ∀ c ∈ tail, isInert c = true)
    (some : tail ≠ []) (inert' : ∀ c ∈ other, isInert c = true) (some' : other ≠ [])
    (whole : Whole (text ++ tail)) : Whole (text ++ other) := by
  have sound := Mode.sound_code.after text
  have ordinary := fun c member => isOrdinary_of_isInert (inert c member)
  have ordinary' := fun c member => isOrdinary_of_isInert (inert' c member)
  have uncut := whole.solid
  have level := whole.level
  have closed := whole.closed
  rw [solid_append, Bool.and_eq_true] at uncut
  rw [nestingAfter_append, nestingAfter_of_inert inert] at level
  -- Both only take a pending backslash away.
  rw [Closed, Mode.after_append, sound.after_ordinary ordinary some] at closed
  constructor
  · rw [solid_append, uncut.1, solid_of_inert inert']
    rfl
  · rw [nestingAfter_append, nestingAfter_of_inert inert', level]
  · rw [Closed, Mode.after_append, sound.after_ordinary ordinary' some', closed]

end Scan

namespace Sheet.Declaration

open Scan

theorem inert_mark : ∀ c ∈ mark, isInert c = true := List.all_eq_true.mp rfl

/-- An importance mark as it can be spelled behind a value: inert, and no part of a call. -/
structure IsMark (tail : Text) : Prop where
  isTail : IsTail tail
  inert : ∀ c ∈ tail, isInert c = true
  marks : ∀ before, dropImportant? (before ++ tail) = some (Text.trim before)

theorem IsMark.ne_nil {tail : Text} (isMark : IsMark tail) : tail ≠ [] := by
  obtain ⟨c, rest, rfl, _⟩ := isMark.isTail.starts
  simp

/-- A value that importance is taken off of is the rest and a mark. -/
theorem exists_tail_of_dropImportant? {value plain : Text} (trimmed : Text.Trimmed value)
    (found : dropImportant? value = some plain) :
    ∃ tail, value = plain ++ tail ∧ IsMark tail := by
  obtain ⟨blanks, word, blank, keyword, ⟨before, rfl⟩, each⟩ := exists_mark_of_dropImportant? found
  obtain rfl : Text.trim before = plain := Option.some.inj ((each before).symm.trans found)
  obtain ⟨left, right, leftBlank, rightBlank, parts⟩ := Text.exists_trim before
  -- The value starts with ink, so there is nothing to trim in front.
  have nothing : left = [] := by
    cases left with
    | nil => rfl
    | cons c rest =>
      have ink := trimmed.starts c (by rw [parts]; rfl)
      rw [leftBlank c (List.mem_cons_self ..)] at ink
      simp at ink
  rw [nothing, List.nil_append] at parts
  have letters : ∀ c ∈ word, isInert c = true := by
    apply inert_of_avoids
    intro c member
    have avoids : Text.Avoids ['\'', '"', '\\', ';', '(', ')'] word.reverse :=
      Text.avoids_of_isKeyword (by decide) keyword
    exact avoids c (List.mem_reverse.mpr member)
  have inert : ∀ c ∈ right ++ '!' :: (blanks ++ word), isInert c = true := by
    intro c member
    simp only [List.mem_append, List.mem_cons] at member
    rcases member with gap | rfl | gap | letter
    · exact isInert_of_blank (rightBlank c gap)
    · rfl
    · exact isInert_of_blank (blank c gap)
    · exact letters c letter
  refine ⟨right ++ '!' :: (blanks ++ word), ?_, ⟨?_, ?_, ?_⟩, inert, ?_⟩
  · conv => lhs; rw [parts, List.append_assoc]
  · cases right with
    | nil => exact ⟨'!', _, rfl, by decide⟩
    | cons c rest => exact ⟨c, _, rfl, breaks_of_blank (rightBlank c (List.mem_cons_self ..))⟩
  · exact fun member => absurd (inert _ member) (by decide)
  · exact fun member => absurd (inert _ member) (by decide)
  · intro other
    rw [← List.append_assoc, each, Text.trim_append_blank rightBlank]

/-- What the written form of a declaration is read as. -/
def asRead (declaration : Declaration) : Declaration :=
  let property := Text.trim declaration.property
  let value := Text.trim declaration.value
  if declaration.important then { property, value, important := true }
  else match dropImportant? value with
    | some plain => { property, value := plain, important := true }
    | none => { property, value }

/-- A name and a value, but perhaps with blanks around them or with a mark in the value. -/
structure Loose (declaration : Declaration) : Prop where
  named : Text.trim declaration.property ≠ []
  colonFree : ':' ∉ declaration.property
  valued : Text.trim declaration.value ≠ []

theorem trim_mark {value : Text} (some : Text.trim value ≠ []) :
    dropImportant? (Text.trim (value ++ mark)) = Option.some (Text.trim value) := by
  obtain ⟨left, right, leftBlank, rightBlank, parts⟩ := Text.exists_trim value
  have last : Text.Trimmed "!important".toList := by decide
  have trimmed := (Text.trimmed_trim value).between some last (by decide) (right ++ [' '])
  have spaced : mark = [' '] ++ "!important".toList := rfl
  have marked : Text.trim value ++ (right ++ [' ']) ++ "!important".toList
      = (Text.trim value ++ right) ++ mark := by
    rw [spaced, List.append_assoc, List.append_assoc, List.append_assoc]
  have whole : value ++ mark = left ++ (Text.trim value ++ right ++ mark) := by
    conv => lhs; rw [parts]
    rw [List.append_assoc, List.append_assoc, List.append_assoc]
  rw [marked] at trimmed
  rw [whole, Text.trim_blank_append leftBlank, Text.trim_of_trimmed trimmed, dropImportant?_mark,
    Text.trim_append_blank rightBlank, Text.trim_trim]

theorem Loose.isMalformed {declaration : Declaration} (loose : Loose declaration) :
    declaration.isMalformed = false := by
  rw [isMalformed_eq_false]
  constructor
  · intro none
    exact loose.named (by rw [none]; rfl)
  · intro none
    exact loose.valued (by rw [none]; rfl)

theorem parse_write_of_loose {declaration : Declaration} (loose : Loose declaration) :
    parse declaration.write = asRead declaration := by
  have blank : Text.Blank [' '] := by decide
  rw [write_of_wellFormed loose.isMalformed, parse_of_colon loose.colonFree,
    ← List.singleton_append, Text.trim_blank_append blank, asRead]
  cases important : declaration.important with
  | true => simp only [if_true, trim_mark loose.valued]
  | false =>
    cases marked : dropImportant? (Text.trim declaration.value) <;> simp [marked]

theorem parse_trim (chunk : Text) : parse (Text.trim chunk) = parse chunk := by
  obtain ⟨left, right, leftBlank, rightBlank, parts⟩ := Text.exists_trim chunk
  rcases colon_cases (Text.trim chunk) with free | ⟨name, rest, free, same⟩
  · have absent : ':' ∉ chunk := fun member => free (Text.mem_trim_of_ink member (by decide))
    rw [parse_of_colonFree free, parse_of_colonFree absent, Text.trim_trim]
  · -- The blanks around the chunk stand before its name and behind its value.
    have absent : ':' ∉ left ++ name := by
      intro member
      rcases List.mem_append.mp member with blank | named
      · exact absurd (leftBlank _ blank) (by decide)
      · exact free named
    have whole : chunk = (left ++ name) ++ ':' :: (rest ++ right) := by
      conv => lhs; rw [parts, same]
      simp
    conv => rhs; rw [whole]
    rw [same, parse_of_colon free, parse_of_colon absent, Text.trim_blank_append leftBlank,
      Text.trim_append_blank rightBlank]

theorem reread_of_loose {declaration : Declaration} (loose : Loose declaration) :
    reread declaration = [asRead declaration] := by
  have colon : ':' ∈ declaration.write := by
    rw [write_of_wellFormed loose.isMalformed]
    simp
  have ink : Text.trim declaration.write ≠ [] :=
    List.ne_nil_of_mem (Text.mem_trim_of_ink colon (by decide))
  simp [reread, ownChunk, ink, parse_trim, parse_write_of_loose loose]

theorem flatMap_reread_of_loose {declarations : List Declaration}
    (loose : ∀ declaration ∈ declarations, Loose declaration) :
    declarations.flatMap reread = declarations.map asRead := by
  induction declarations with
  | nil => rfl
  | cons declaration rest ih =>
    rw [List.forall_mem_cons] at loose
    rw [List.flatMap_cons, reread_of_loose loose.1, ih loose.2]
    rfl

@[simp] theorem property_asRead (declaration : Declaration) :
    (asRead declaration).property = Text.trim declaration.property := by
  simp only [asRead]
  split
  · rfl
  · split <;> rfl

theorem isCustom_asRead (declaration : Declaration) :
    (asRead declaration).isCustom = isCustomName (Text.trim declaration.property) := by
  rw [isCustom, property_asRead]

theorem trimmed_asRead (declaration : Declaration) : Text.Trimmed (asRead declaration).value := by
  simp only [asRead]
  split
  · exact Text.trimmed_trim _
  · split
    next found =>
      obtain ⟨before, _, rfl⟩ := exists_of_dropImportant? found
      exact Text.trimmed_trim before
    next => exact Text.trimmed_trim _

/-- A trimmed value is read as it is, or without the mark that it ends in. -/
theorem asRead_cases {declaration : Declaration} (trimmed : Text.Trimmed declaration.value) :
    (asRead declaration = { declaration with property := Text.trim declaration.property } ∧
      (declaration.important = true ∨ dropImportant? declaration.value = none)) ∨
    declaration.important = false ∧ ∃ plain tail, declaration.value = plain ++ tail ∧ IsMark tail ∧
      asRead declaration
        = { property := Text.trim declaration.property, value := plain, important := true } := by
  obtain ⟨property, value, important⟩ := declaration
  dsimp only at trimmed ⊢
  have same := Text.trim_of_trimmed trimmed
  cases important with
  | true => exact .inl ⟨by simp [asRead, same], .inl rfl⟩
  | false =>
    cases found : dropImportant? value with
    | none => exact .inl ⟨by simp [asRead, same, found], .inr rfl⟩
    | some plain =>
      obtain ⟨tail, parts, isMark⟩ := exists_tail_of_dropImportant? trimmed found
      exact .inr ⟨rfl, plain, tail, parts, isMark, by simp [asRead, same, found]⟩

theorem hasReference_asRead {declaration : Declaration}
    (trimmed : Text.Trimmed declaration.value) :
    hasReference (asRead declaration).value = hasReference declaration.value := by
  rcases asRead_cases trimmed with ⟨read, _⟩ | ⟨_, plain, tail, parts, isMark, read⟩
  · rw [read]
  · rw [read, parts, isMark.isTail.hasReference_append]

/-! ### Whole forms -/

theorem whole_mark : Whole mark := whole_of_inert inert_mark

/-- A declaration is whole if its name is inert and its value is whole, mark included. -/
theorem whole_write_of_value {declaration : Declaration} (loose : Loose declaration)
    (inert : ∀ c ∈ declaration.property, isInert c = true)
    (whole : Whole (declaration.value ++ if declaration.important then mark else [])) :
    Whole declaration.write := by
  have colon : Whole [':', ' '] := by decide
  have parts : declaration.write = declaration.property ++ ([':', ' '] ++
      (declaration.value ++ if declaration.important then mark else [])) := by
    rw [write_of_wellFormed loose.isMalformed]
    rfl
  rw [parts]
  exact (whole_of_inert inert).append (colon.append whole)

theorem whole_value_append {value : Text} (whole : Whole value) (important : Bool) :
    Whole (value ++ if important then mark else []) := by
  cases important with
  | true => exact whole.append whole_mark
  | false => simpa using whole

/-- What a value with a mark leaves whole, it leaves whole with the written mark. -/
theorem IsMark.whole_exchange {value tail : Text} (isMark : IsMark tail)
    (whole : Whole (value ++ tail)) : Whole (value ++ mark) :=
  whole.exchange_tail isMark.inert isMark.ne_nil inert_mark (by decide)

/-! ### Changing values -/

section change

variable {change : Text → Text}
  (appends : ∀ text tail, IsTail tail → change (text ++ tail) = change text ++ tail)
  {declaration : Declaration} (trimmed : Text.Trimmed declaration.value)
  (still : Text.Trimmed (change declaration.value))
include appends trimmed still

/-- Values can be changed before a declaration is written and read, or after. -/
theorem asRead_change :
    asRead { asRead declaration with value := change (asRead declaration).value }
      = asRead { declaration with value := change declaration.value } := by
  rcases asRead_cases trimmed with ⟨read, _⟩ | ⟨unmarked, plain, tail, parts, isMark, read⟩
  · rw [read]
    simp [asRead, Text.trim_trim]
  · rw [parts, appends plain tail isMark.isTail] at still
    rw [read]
    -- The mark is taken off behind the changed value as it was behind the old one.
    simp [asRead, unmarked, parts, appends plain tail isMark.isTail, Text.trim_of_trimmed still,
      isMark.marks, Text.trim_trim]

omit still in
/-- What is changed behind the mark is part of what is changed with it. -/
theorem mem_change_asRead {c : Char} (member : c ∈ change (asRead declaration).value) :
    c ∈ change declaration.value := by
  rcases asRead_cases trimmed with ⟨read, _⟩ | ⟨_, plain, tail, parts, isMark, read⟩
  · rwa [read] at member
  · rw [read] at member
    rw [parts, appends plain tail isMark.isTail]
    exact List.mem_append_left tail member

variable (loose : Loose declaration) (valued : change declaration.value ≠ [])
  (some : (asRead { declaration with value := change declaration.value }).value ≠ [])
include loose valued some

/-- A value that is more than a mark is left when it is changed. -/
theorem loose_change :
    Loose { asRead declaration with value := change (asRead declaration).value } := by
  constructor
  · simpa [Text.trim_trim] using loose.named
  · simpa using fun member => loose.colonFree (Text.mem_of_mem_trim member)
  · rcases asRead_cases trimmed with ⟨read, _⟩ | ⟨unmarked, plain, tail, parts, isMark, read⟩
    · simpa [read, Text.trim_of_trimmed still] using valued
    · rw [parts, appends plain tail isMark.isTail] at still
      rw [read]
      simpa [asRead, unmarked, parts, appends plain tail isMark.isTail, Text.trim_of_trimmed still,
        isMark.marks] using some

theorem whole_write_change (inert : ∀ c ∈ declaration.property, isInert c = true)
    (whole : Whole (change declaration.value)) :
    Whole { asRead declaration with value := change (asRead declaration).value }.write := by
  apply whole_write_of_value (loose_change appends trimmed still loose valued some)
  · simpa using fun c member => inert c (Text.mem_of_mem_trim member)
  · rcases asRead_cases trimmed with ⟨read, _⟩ | ⟨_, plain, tail, parts, isMark, read⟩
    · rw [read]
      exact whole_value_append whole declaration.important
    · rw [parts, appends plain tail isMark.isTail] at whole
      rw [read]
      exact isMark.whole_exchange whole

end change

end Sheet.Declaration
end ThemeCss
