import ThemeCss.Proofs.Scan.Balance
import ThemeCss.Proofs.Sheet.Declaration
import ThemeCss.Proofs.Text.Search
import ThemeCss.Proofs.Text.Trim
import ThemeCss.Sheet.Reader

/-!
# One step of the reader

What the reader does with a text is settled by the part up to the first brace or semicolon: nothing
but blanks, an at-rule or a selector. Each step is an equation about that part and the text behind
it, so that later proofs read a sheet part by part and never open the reader: a part is the last
one, a statement or the head of a block, and what holds of each holds of the text by induction.
-/
namespace ThemeCss.Sheet

open Scan

/-- Whether the first ink of a text is the sign of an at-rule. -/
def opensAt (text : Text) : Bool := (Text.trimLeft text).head? == some '@'

theorem exists_of_opensAt {text : Text} (opens : opensAt text = true) :
    ∃ rest, Text.trimLeft text = '@' :: rest := by
  cases start : Text.trimLeft text with
  | nil => simp [opensAt, start] at opens
  | cons c rest =>
    have same : c = '@' := by simpa [opensAt, start] using opens
    exact ⟨rest, by rw [same]⟩

theorem opensAt_eq (text : Text) : opensAt text = ((Text.trim text).head? == some '@') := by
  rw [opensAt, Text.head?_trimLeft]

theorem opensAt_blank_append {blanks : Text} (blank : Text.Blank blanks) (text : Text) :
    opensAt (blanks ++ text) = opensAt text := by
  rw [opensAt, opensAt, Text.trimLeft_blank_append blank]

/-- Ink behind a text does not let trimming go further. -/
theorem trimLeft_append_ink (text : Text) {c : Char} (ink : Text.isBlank c = false) (rest : Text) :
    Text.trimLeft (text ++ c :: rest) = Text.trimLeft text ++ c :: rest := by
  by_cases blank : Text.trimLeft text = []
  · rw [Text.trimLeft_blank_append (Text.blank_of_trimLeft_eq_nil blank), blank,
      Text.trimLeft_cons ink]
    rfl
  · exact Text.trimLeft_append blank _

theorem ink_of_endsPrelude {c : Char} (ends : endsPrelude c = true) :
    Text.isBlank c = false ∧ c ≠ '@' := by
  simp only [endsPrelude, Bool.or_eq_true, beq_iff_eq] at ends
  rcases ends with rfl | rfl <;> decide

/-- The sign of an at-rule stands before its brace or semicolon. -/
theorem opensAt_append {c : Char} (ends : endsPrelude c = true) (before after : Text) :
    opensAt (before ++ c :: after) = opensAt before := by
  have ink := ink_of_endsPrelude ends
  rw [opensAt, opensAt, trimLeft_append_ink _ ink.1]
  cases first : Text.trimLeft before with
  | nil => simp [ink.2]
  | cons d tail => rfl

theorem trim_trimLeft (text : Text) : Text.trim (Text.trimLeft text) = Text.trim text := by
  conv => rhs; rw [← Text.takeWhile_append_trimLeft text,
    Text.trim_blank_append (Text.blank_takeWhile text)]

theorem readNodes_of_blank {text : Text} (blank : Text.Blank text) :
    readNodes text = ([], []) := by
  have start := Text.trimLeft_of_blank blank
  rw [readNodes]
  split
  · rfl
  next other => simp [start] at other
  next other => simp [start] at other

/-- The reader behind the sign of an at-rule. -/
theorem readNodes_at {text rest : Text} (start : Text.trimLeft text = '@' :: rest) :
    readNodes text
      = match rest.dropWhile (!endsPrelude ·) with
        | [] => ([.statement (Text.trim ('@' :: rest.takeWhile (!endsPrelude ·)))], [])
        | c :: opened =>
          if c = '{' then
            match Bracket.curly.split? opened with
            | none => ([], Text.trim ('@' :: rest))
            | some (inside, after) =>
              ((if hasNestedBlock inside then
                  .group (Text.trim ('@' :: rest.takeWhile (!endsPrelude ·))) (readNodes inside).1
                else .block (Text.trim ('@' :: rest.takeWhile (!endsPrelude ·)))
                  (Text.trim inside)) :: (readNodes after).1, (readNodes after).2)
          else
            (.statement (Text.trim ('@' :: rest.takeWhile (!endsPrelude ·)))
              :: (readNodes opened).1, (readNodes opened).2) := by
  -- The only unfolding of the reader at an at-rule; what follows uses this equation.
  rw [readNodes]
  split
  next other => simp [start] at other
  next other same =>
    simp only [start, List.cons.injEq, true_and] at same
    subst same
    split
    next opened ended =>
      simp only [ended, if_true]
      split <;> rename_i closed <;> simp only [closed]
    next c opened other ended =>
      have plain : c ≠ '{' := fun equal => other equal
      simp only [ended, if_neg plain]
    next ended => simp only [ended]
  next other differs same =>
    simp only [start, List.cons.injEq] at same
    exact (differs same.1.symm).elim

/-- The reader at ink that is not the sign of an at-rule. -/
theorem readNodes_ink {text rest : Text} {c : Char} (start : Text.trimLeft text = c :: rest)
    (other : c ≠ '@') :
    readNodes text
      = match (c :: rest).dropWhile (· != '{') with
        | [] => ([.rule anySelector (Declaration.parseAll (c :: rest))], [])
        | _ :: opened =>
          match Bracket.curly.split? opened with
          | none => ([], Text.trim (c :: rest))
          | some (inside, after) =>
            (.rule (Text.trim ((c :: rest).takeWhile (· != '{'))) (Declaration.parseAll inside)
              :: (readNodes after).1, (readNodes after).2) := by
  -- The only unfolding of the reader at a selector.
  rw [readNodes]
  split
  next none => simp [start] at none
  next at_ =>
    simp only [start, List.cons.injEq] at at_
    exact absurd at_.1 other
  next first tail differs same =>
    simp only [start, List.cons.injEq] at same
    obtain ⟨rfl, rfl⟩ := same
    split
    next ended => simp only [ended]
    next opened ended =>
      simp only [ended]
      split <;> rename_i closed <;> simp only [closed]

theorem hasNestedBlock_of_free {body : Text} (free : '{' ∉ body) : hasNestedBlock body = false := by
  rw [hasNestedBlock, Text.splitAtWord?_singleton_eq_none free]

theorem hasNestedBlock_of_closed {before opened inside after : Text} (free : '{' ∉ before)
    (closed : Bracket.curly.split? opened = some (inside, after)) :
    hasNestedBlock (before ++ '{' :: opened) = true := by
  rw [hasNestedBlock, Text.splitAtWord?_singleton free]
  simp [closed]

/-- What stands before the first opening brace does not matter. -/
theorem hasNestedBlock_append {before : Text} (free : '{' ∉ before) (rest : Text) :
    hasNestedBlock (before ++ rest) = hasNestedBlock rest := by
  by_cases held : '{' ∈ rest
  · obtain ⟨passed, opened, parts, absent⟩ := List.eq_append_cons_of_mem held
    have front : '{' ∉ before ++ passed := by simp [free, absent]
    rw [parts, ← List.append_assoc, hasNestedBlock, hasNestedBlock,
      Text.splitAtWord?_singleton front, Text.splitAtWord?_singleton absent]
  · rw [hasNestedBlock_of_free (by simp [free, held]), hasNestedBlock_of_free held]

/-! ### Reading a part -/

section atRule

variable {prelude : Text} (opens : opensAt prelude = true)
  (free : ∀ c ∈ prelude, endsPrelude c = false)
include opens free

/-- A prelude behind its sign, when something behind it is read too. -/
theorem exists_prelude :
    ∃ rest, Text.trimLeft prelude = '@' :: rest ∧ Text.trim ('@' :: rest) = Text.trim prelude ∧
      ∀ c ∈ rest, (!endsPrelude c) = true := by
  obtain ⟨rest, start⟩ := exists_of_opensAt opens
  refine ⟨rest, start, by rw [← start, trim_trimLeft], ?_⟩
  intro c member
  simp [free c (Text.mem_of_mem_trimLeft (start ▸ List.mem_cons_of_mem _ member))]

/-- A prelude up to what ends it. -/
theorem exists_endedPrelude (c : Char) (ends : endsPrelude c = true) (after : Text) :
    ∃ rest, Text.trimLeft (prelude ++ c :: after) = '@' :: (rest ++ c :: after) ∧
      Text.trim ('@' :: rest) = Text.trim prelude ∧
      (rest ++ c :: after).takeWhile (!endsPrelude ·) = rest ∧
      (rest ++ c :: after).dropWhile (!endsPrelude ·) = c :: after := by
  obtain ⟨rest, start, trimmed, passes⟩ := exists_prelude opens free
  have stops : (!endsPrelude c) = false := by rw [ends]; rfl
  refine ⟨rest, ?_, trimmed, Text.takeWhile_stop passes stops after,
    Text.dropWhile_stop passes stops after⟩
  rw [trimLeft_append_ink _ (ink_of_endsPrelude ends).1, start]
  rfl

/-- A prelude that nothing ends is a statement at the end of the text. -/
theorem readNodes_lastStatement :
    readNodes prelude = ([.statement (Text.trim prelude)], []) := by
  obtain ⟨rest, start, trimmed, passes⟩ := exists_prelude opens free
  rw [readNodes_at start, Text.dropWhile_of_passes passes, Text.takeWhile_of_passes passes, trimmed]

theorem readNodes_statement (after : Text) :
    readNodes (prelude ++ ';' :: after)
      = (.statement (Text.trim prelude) :: (readNodes after).1, (readNodes after).2) := by
  obtain ⟨rest, start, trimmed, front, behind⟩ := exists_endedPrelude opens free ';' rfl after
  rw [readNodes_at start, behind, front, trimmed]
  rfl

theorem readNodes_atBlock {opened inside after : Text}
    (closed : Bracket.curly.split? opened = some (inside, after)) :
    readNodes (prelude ++ '{' :: opened)
      = ((if hasNestedBlock inside then .group (Text.trim prelude) (readNodes inside).1
          else .block (Text.trim prelude) (Text.trim inside)) :: (readNodes after).1,
        (readNodes after).2) := by
  obtain ⟨rest, start, trimmed, front, behind⟩ := exists_endedPrelude opens free '{' rfl opened
  rw [readNodes_at start, behind, front, trimmed]
  simp only [closed, if_true]

/-- An at-rule that is never closed is left over, trimmed. -/
theorem readNodes_atUnclosed {opened : Text} (unclosed : Bracket.curly.split? opened = none) :
    readNodes (prelude ++ '{' :: opened) = ([], Text.trim (prelude ++ '{' :: opened)) := by
  obtain ⟨rest, start, _, _, behind⟩ := exists_endedPrelude opens free '{' rfl opened
  have trimmed := trim_trimLeft (prelude ++ '{' :: opened)
  rw [start] at trimmed
  rw [readNodes_at start, behind]
  simp only [unclosed, if_true, trimmed]

end atRule

section rule

variable {selector : Text} (plain : opensAt selector = false) (free : '{' ∉ selector)
include plain free

/-- Declarations without a block belong to every element. -/
theorem readNodes_bare (ink : Text.trimLeft selector ≠ []) :
    readNodes selector
      = ([.rule anySelector (Declaration.parseAll (Text.trimLeft selector))], []) := by
  obtain ⟨c, rest, start⟩ := List.exists_cons_of_ne_nil ink
  have other : c ≠ '@' := by
    rintro rfl
    simp [opensAt, start] at plain
  -- No brace ends the selector, so all of the text is declarations.
  have passes : ∀ d ∈ c :: rest, (d != '{') = true := by
    intro d member
    rw [bne_iff_ne]
    rintro rfl
    exact free (Text.mem_of_mem_trimLeft (start ▸ member))
  rw [readNodes_ink start other, Text.dropWhile_of_passes passes, start]

/-- A selector behind its blanks, up to its opening brace. -/
theorem exists_selector (opened : Text) :
    ∃ c rest, c ≠ '@' ∧ Text.trimLeft (selector ++ '{' :: opened) = c :: rest ∧
      c :: rest = Text.trimLeft selector ++ '{' :: opened ∧
      ∀ d ∈ Text.trimLeft selector, (d != '{') = true := by
  have whole : Text.trimLeft (selector ++ '{' :: opened)
      = Text.trimLeft selector ++ '{' :: opened := trimLeft_append_ink _ (by decide) _
  obtain ⟨c, rest, start⟩ : ∃ c rest, Text.trimLeft selector ++ '{' :: opened = c :: rest :=
    List.exists_cons_of_ne_nil (by simp)
  -- The first ink is that of the selector, or the brace if the selector is blank.
  refine ⟨c, rest, ?_, whole.trans start, start.symm, ?_⟩
  · rintro rfl
    cases trimmed : Text.trimLeft selector with
    | nil => simp [trimmed] at start
    | cons d tail =>
      have same : d = '@' := by simpa [trimmed] using congrArg List.head? start
      simp [opensAt, trimmed, same] at plain
  · intro d member
    rw [bne_iff_ne]
    rintro rfl
    exact free (Text.mem_of_mem_trimLeft member)

theorem readNodes_rule {opened inside after : Text}
    (closed : Bracket.curly.split? opened = some (inside, after)) :
    readNodes (selector ++ '{' :: opened)
      = (.rule (Text.trim selector) (Declaration.parseAll inside) :: (readNodes after).1,
        (readNodes after).2) := by
  obtain ⟨c, rest, other, start, parts, passes⟩ := exists_selector plain free opened
  rw [readNodes_ink start other, parts, Text.dropWhile_stop passes (by decide),
    Text.takeWhile_stop passes (by decide), trim_trimLeft]
  simp only [closed]

/-- A rule that is never closed is left over, trimmed. -/
theorem readNodes_unclosed {opened : Text} (unclosed : Bracket.curly.split? opened = none) :
    readNodes (selector ++ '{' :: opened) = ([], Text.trim (selector ++ '{' :: opened)) := by
  obtain ⟨c, rest, other, start, parts, passes⟩ := exists_selector plain free opened
  have trimmed : Text.trim (c :: rest) = Text.trim (selector ++ '{' :: opened) := by
    rw [← start, trim_trimLeft]
  rw [readNodes_ink start other, trimmed, parts, Text.dropWhile_stop passes (by decide)]
  simp only [unclosed]

end rule

/-! ### Part by part -/

/-- What can stand before the opening brace of a block: no brace, and for an at-rule no semicolon
either. -/
def IsHead (head : Text) : Prop := '{' ∉ head ∧ (opensAt head = true → ';' ∉ head)

/-- The node that a block is read as. -/
def blockNode (head inside : Text) : Node :=
  if opensAt head then
    if hasNestedBlock inside then .group (Text.trim head) (readNodes inside).1
    else .block (Text.trim head) (Text.trim inside)
  else .rule (Text.trim head) (Declaration.parseAll inside)

theorem IsHead.endsPrelude {head : Text} (isHead : IsHead head) (opens : opensAt head = true) :
    ∀ c ∈ head, endsPrelude c = false := by
  intro c member
  have brace : c ≠ '{' := fun same => isHead.1 (same ▸ member)
  have semicolon : c ≠ ';' := fun same => isHead.2 opens (same ▸ member)
  simp [Sheet.endsPrelude, brace, semicolon]

/-- A text holds no further block, starts with a statement, or starts with the head of a block. -/
theorem reader_cases (text : Text) :
    IsHead text ∨
    (∃ prelude after, text = prelude ++ ';' :: after ∧ opensAt prelude = true ∧
      ∀ c ∈ prelude, endsPrelude c = false) ∨
    ∃ head opened, text = head ++ '{' :: opened ∧ IsHead head := by
  cases opens : opensAt text with
  | true =>
    rcases Text.exists_stop endsPrelude text with free | ⟨before, c, after, rfl, stop, free⟩
    · exact .inl ⟨fun member => absurd (free '{' member) (by decide),
        fun _ member => absurd (free ';' member) (by decide)⟩
    · rw [opensAt_append stop] at opens
      simp only [endsPrelude, Bool.or_eq_true, beq_iff_eq] at stop
      rcases stop with rfl | rfl
      · refine .inr (.inr ⟨before, after, rfl, ?_, ?_⟩)
        · exact fun member => absurd (free '{' member) (by decide)
        · exact fun _ member => absurd (free ';' member) (by decide)
      · exact .inr (.inl ⟨before, after, rfl, opens, free⟩)
  | false =>
    by_cases brace : '{' ∈ text
    · obtain ⟨head, opened, rfl, free⟩ := List.eq_append_cons_of_mem brace
      refine .inr (.inr ⟨head, opened, rfl, free, ?_⟩)
      rw [opensAt_append rfl] at opens
      simp [opens]
    · exact .inl ⟨brace, by simp [opens]⟩

/-- What no block and no statement ends is a last statement, or declarations without a selector. -/
theorem readNodes_last {text : Text} (isHead : IsHead text) :
    readNodes text = (if Text.trimLeft text = [] then []
      else if opensAt text then [.statement (Text.trim text)]
      else [.rule anySelector (Declaration.parseAll text)], []) := by
  by_cases blank : Text.trimLeft text = []
  · rw [readNodes_of_blank (Text.blank_of_trimLeft_eq_nil blank), if_pos blank]
  · rw [if_neg blank]
    cases opens : opensAt text with
    | true => rw [readNodes_lastStatement opens (isHead.endsPrelude opens), if_pos rfl]
    | false =>
      rw [readNodes_bare opens isHead.1 blank, Declaration.parseAll_trimLeft, if_neg (by simp)]

theorem readNodes_head {head opened inside after : Text} (isHead : IsHead head)
    (closed : Bracket.curly.split? opened = some (inside, after)) :
    readNodes (head ++ '{' :: opened)
      = (blockNode head inside :: (readNodes after).1, (readNodes after).2) := by
  cases opens : opensAt head with
  | true =>
    rw [readNodes_atBlock opens (isHead.endsPrelude opens) closed, blockNode, if_pos opens]
  | false =>
    rw [readNodes_rule opens isHead.1 closed, blockNode, if_neg (by simp [opens])]

/-- A block that is never closed is left over, trimmed. -/
theorem readNodes_headUnclosed {head opened : Text} (isHead : IsHead head)
    (unclosed : Bracket.curly.split? opened = none) :
    readNodes (head ++ '{' :: opened) = ([], Text.trim (head ++ '{' :: opened)) := by
  cases opens : opensAt head with
  | true => exact readNodes_atUnclosed opens (isHead.endsPrelude opens) unclosed
  | false => exact readNodes_unclosed opens isHead.1 unclosed

theorem trailing_headUnclosed {head opened : Text} (isHead : IsHead head)
    (unclosed : Bracket.curly.split? opened = none) :
    (readNodes (head ++ '{' :: opened)).2 ≠ [] := by
  rw [readNodes_headUnclosed isHead unclosed]
  have brace : '{' ∈ head ++ '{' :: opened := by simp
  exact List.ne_nil_of_mem (Text.mem_trim_of_ink brace (by decide))

/-- A text is read statement by statement and block by block, up to a part that nothing ends or a
block that is never closed. -/
@[elab_as_elim]
theorem reader_induction {P : Text → Prop} (last : ∀ text, IsHead text → P text)
    (unclosed : ∀ head opened, IsHead head → Bracket.curly.split? opened = none →
      P (head ++ '{' :: opened))
    (statement : ∀ prelude after, opensAt prelude = true →
      (∀ c ∈ prelude, endsPrelude c = false) → P after → P (prelude ++ ';' :: after))
    (block : ∀ head inside after, IsHead head →
      Bracket.curly.split? (inside ++ '}' :: after) = some (inside, after) → P after →
      P (head ++ '{' :: (inside ++ '}' :: after)))
    (text : Text) : P text := by
  induction size : text.length using Nat.strongRecOn generalizing text with
  | ind size ih =>
    subst size
    rcases reader_cases text with isHead | ⟨prelude, after, rfl, opens, free⟩ |
      ⟨head, opened, rfl, isHead⟩
    · exact last text isHead
    · exact statement prelude after opens free (ih after.length (by simp; omega) after rfl)
    · cases closed : Bracket.curly.split? opened with
      | none => exact unclosed head opened isHead closed
      | some parts =>
        obtain ⟨inside, after⟩ := parts
        obtain rfl := Bracket.splitFrom?_sound closed
        exact block head inside after isHead closed (ih after.length (by simp; omega) after rfl)

theorem parse_eq (source : Text) :
    parse source = ⟨(readNodes (Comment.strip source)).1, (readNodes (Comment.strip source)).2⟩ :=
  rfl

end ThemeCss.Sheet
