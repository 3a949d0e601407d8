import ThemeCss.Proofs.Scan.Balance
import ThemeCss.Proofs.Text.Rewrite
import ThemeCss.Proofs.Text.Search
import ThemeCss.Proofs.Text.Trim
import ThemeCss.Variables.Block

/-!
# Where blocks are matched

The three matchers of expansion look no further than the next brace or semicolon. They answer
nowhere in a part without braces, at no closing brace and at no opening one with a further block
behind it, so a sheet is rewritten block by block.
-/
namespace ThemeCss.Variables

open Scan

def BraceFree (text : Text) : Prop := ∀ c ∈ text, isBrace c = false

/-- No brace and no semicolon. -/
def Undelimited (text : Text) : Prop := ∀ c ∈ text, isDelimiter c = false

instance (text : Text) : Decidable (BraceFree text) := List.decidableBAll _ text

instance (text : Text) : Decidable (Undelimited text) := List.decidableBAll _ text

theorem BraceFree.append {first second : Text} (left : BraceFree first)
    (right : BraceFree second) : BraceFree (first ++ second) := by
  intro c member
  rcases List.mem_append.mp member with member | member
  · exact left c member
  · exact right c member

theorem BraceFree.join {glue : Text} (glued : BraceFree glue) {parts : List Text}
    (each : ∀ part ∈ parts, BraceFree part) : BraceFree (Text.join glue parts) :=
  Text.intercalate_induction (by simp [BraceFree]) (fun _ _ => BraceFree.append) glued each

theorem Undelimited.append {first second : Text} (left : Undelimited first)
    (right : Undelimited second) : Undelimited (first ++ second) := by
  intro c member
  rcases List.mem_append.mp member with member | member
  · exact left c member
  · exact right c member

theorem Undelimited.braceFree {text : Text} (free : Undelimited text) : BraceFree text := by
  intro c member
  have delimiter := free c member
  simp only [isDelimiter, Bool.or_eq_false_iff] at delimiter
  exact delimiter.1

theorem braceFree_of_avoids {text : Text} (avoids : Text.Avoids ['{', '}'] text) :
    BraceFree text := by
  intro c member
  have free := avoids c member
  simp only [List.mem_cons, List.not_mem_nil, or_false, not_or] at free
  simp [isBrace, free]

theorem BraceFree.curly_free {text : Text} (free : BraceFree text) :
    ∀ c ∈ text, c ≠ '{' ∧ c ≠ '}' := by
  intro c member
  simpa [isBrace] using free c member

theorem BraceFree.not_mem {text : Text} (free : BraceFree text) : '{' ∉ text :=
  fun member => (free.curly_free _ member).1 rfl

theorem BraceFree.closer_not_mem {text : Text} (free : BraceFree text) : '}' ∉ text :=
  fun member => (free.curly_free _ member).2 rfl

theorem Undelimited.not_mem {text : Text} (free : Undelimited text) {c : Char}
    (delimiter : isDelimiter c = true) : c ∉ text := by
  intro member
  rw [free c member] at delimiter
  exact absurd delimiter (by decide)

theorem BraceFree.balanced {text : Text} (free : BraceFree text) : Bracket.curly.Balanced text :=
  Bracket.balanced_of_free free.curly_free

theorem braceFree_of_blank {text : Text} (blank : Text.Blank text) : BraceFree text := by
  intro c member
  have ink := blank c member
  cases brace : isBrace c with
  | false => rfl
  | true =>
    simp only [isBrace, Bool.or_eq_true, beq_iff_eq] at brace
    rcases brace with rfl | rfl
    · exact absurd ink (by decide)
    · exact absurd ink (by decide)

theorem undelimited_of_blank {text : Text} (blank : Text.Blank text) : Undelimited text := by
  intro c member
  have ink := blank c member
  have brace := braceFree_of_blank blank c member
  have semicolon : c ≠ ';' := by
    rintro rfl
    exact absurd ink (by decide)
  simp [isDelimiter, brace, semicolon]

/-! ### One match -/

/-- What may follow a part that nothing ends: a closing brace or the end of the text. -/
def Ends (rest : Text) : Prop := ∀ c ∈ rest.head?, c = '}'

/-- The first brace is an opening one. -/
def Nested (text : Text) : Prop := ∃ rest, text.dropWhile (!isBrace ·) = '{' :: rest

theorem ends_nil : Ends [] := by simp [Ends]

theorem ends_closer (rest : Text) : Ends ('}' :: rest) := by simp [Ends]

theorem nested_opener {prelude : Text} (free : BraceFree prelude) (rest : Text) :
    Nested (prelude ++ '{' :: rest) :=
  ⟨rest, Text.dropWhile_stop (fun c member => by rw [free c member]; rfl) rfl rest⟩

theorem Nested.append {part text : Text} (free : BraceFree part) (nested : Nested text) :
    Nested (part ++ text) := by
  obtain ⟨rest, first⟩ := nested
  refine ⟨rest, ?_⟩
  rw [List.dropWhile_append_of_pos fun c member => by rw [free c member]; rfl, first]

theorem Undelimited.passes {text : Text} (free : Undelimited text) :
    ∀ c ∈ text, (!isDelimiter c) = true := by
  intro c member
  rw [free c member]
  rfl

theorem BraceFree.passes {text : Text} (free : BraceFree text) :
    ∀ c ∈ text, (!isBrace c) = true := by
  intro c member
  rw [free c member]
  rfl

/-- A part without braces is not followed by an opening one. -/
theorem dropWhile_part {part rest after : Text} (free : BraceFree part)
    (ends : Ends rest ∨ ';' ∈ part) :
    (part ++ rest).dropWhile (!isDelimiter ·) ≠ '{' :: after := by
  induction part with
  | nil =>
    have last := ends.resolve_right (by simp)
    cases rest with
    | nil => simp
    | cons c rest =>
      rw [last c rfl]
      simp [isDelimiter, isBrace]
  | cons c part ih =>
    have head := free c (List.mem_cons_self ..)
    have tail : BraceFree part := fun d member => free d (List.mem_cons_of_mem _ member)
    -- The search stops at the first semicolon, or runs through the part to what follows it.
    by_cases semicolon : c = ';'
    · simp [semicolon, isDelimiter, isBrace]
    · have goes : (!isDelimiter c) = true := by simp [isDelimiter, head, semicolon]
      rw [List.cons_append, List.dropWhile_cons, if_pos goes]
      apply ih tail
      rcases ends with ends | member
      · exact .inl ends
      · exact .inr ((List.mem_cons.mp member).resolve_left (Ne.symm semicolon))

theorem blockMatcher_body {body : Text} (free : BraceFree body) (before : Option Char)
    (rest : Text) :
    blockMatcher before ('{' :: (body ++ '}' :: rest)) = some (body, body.length + 2) := by
  have stops : (!isBrace '}') = false := rfl
  simp [blockMatcher, Text.dropWhile_stop free.passes stops, Text.takeWhile_stop free.passes stops]

theorem blockMatcher_nested {inner : Text} (nested : Nested inner) (before : Option Char) :
    blockMatcher before ('{' :: inner) = none := by
  obtain ⟨rest, first⟩ := nested
  simp [blockMatcher, first]

theorem blockMatcher_other {c : Char} (other : c ≠ '{') (before : Option Char) (rest : Text) :
    blockMatcher before (c :: rest) = none := by
  simp [blockMatcher, other]

theorem ruleMatcher_block {selector body : Text} (free : Undelimited selector)
    (bodyFree : BraceFree body) (before : Option Char) (rest : Text) :
    ruleMatcher before (selector ++ '{' :: (body ++ '}' :: rest))
      = some ((selector, body), selector.length + (body.length + 2)) := by
  have stops : (!isDelimiter '{') = false := rfl
  rw [ruleMatcher, Text.dropWhile_stop free.passes stops, Text.takeWhile_stop free.passes stops,
    blockMatcher_body bodyFree]
  rfl

theorem ruleMatcher_nested {prelude inner : Text} (free : Undelimited prelude)
    (nested : Nested inner) (before : Option Char) :
    ruleMatcher before (prelude ++ '{' :: inner) = none := by
  have stops : (!isDelimiter '{') = false := rfl
  rw [ruleMatcher, Text.dropWhile_stop free.passes stops, blockMatcher_nested nested]
  rfl

theorem ruleMatcher_part {part rest : Text} (free : BraceFree part)
    (ends : Ends rest ∨ ';' ∈ part) (before : Option Char) :
    ruleMatcher before (part ++ rest) = none := by
  -- The matcher wants an opening brace where its search for a delimiter stops.
  have stop := fun after => @dropWhile_part part rest after free ends
  rw [ruleMatcher]
  cases behind : (part ++ rest).dropWhile (!isDelimiter ·) with
  | nil => rfl
  | cons c after =>
    have other : c ≠ '{' := by
      rintro rfl
      exact stop after behind
    rw [blockMatcher_other other]
    rfl

/-- Behind the sign of an at-rule only a rule with a blank body is matched. -/
theorem emptyAtRuleMatcher_eq_none {text : Text} {before : Option Char}
    (misses : ∀ rest selector body size, Text.trimLeft text = '@' :: rest →
      ruleMatcher before rest = some ((selector, body), size) → ¬Text.Blank body) :
    emptyAtRuleMatcher before text = none := by
  simp only [emptyAtRuleMatcher]
  split
  next rest start =>
    cases found : ruleMatcher before rest with
    | none => rfl
    | some hit =>
      obtain ⟨⟨selector, body⟩, size⟩ := hit
      have ink := misses rest selector body size start found
      simp only [Option.bind_some]
      rw [if_neg]
      intro blank
      exact ink (by simpa [Text.Blank] using blank)
  next => rfl

/-- An at-rule with a blank body is matched with the blanks before it. -/
theorem emptyAtRuleMatcher_blank {prelude body rest : Text} (free : Undelimited prelude)
    (start : Text.trimLeft prelude = '@' :: rest) (blank : Text.Blank body)
    (before : Option Char) (after : Text) :
    emptyAtRuleMatcher before (prelude ++ '{' :: (body ++ '}' :: after))
      = some ((), prelude.length + (body.length + 2)) := by
  obtain ⟨blanks, parts⟩ : ∃ blanks, prelude.takeWhile Text.isBlank = blanks := ⟨_, rfl⟩
  have passes := parts ▸ Text.blank_takeWhile prelude
  -- The matcher skips the blanks and the sign itself and reads a rule behind them.
  have whole : prelude = blanks ++ '@' :: rest := by
    rw [← parts, ← start, Text.takeWhile_append_trimLeft]
  have stops : Text.isBlank '@' = false := by decide
  have restFree : Undelimited rest := by
    intro c member
    exact free c (by rw [whole]; simp [member])
  have ink : body.all Text.isBlank = true := by simpa [Text.Blank] using blank
  rw [whole, List.append_assoc, List.cons_append, emptyAtRuleMatcher,
    Text.dropWhile_stop passes stops, Text.takeWhile_stop passes stops]
  simp only [ruleMatcher_block restFree (braceFree_of_blank blank), Option.bind_some, ink, if_true,
    List.length_append, List.length_cons]
  congr 2
  omega

/-! ### Rewriting from block to block -/

/-- A matcher that answers only where a block without further blocks is. -/
structure Passes {α : Type} (matcher : Text.Matcher α) : Prop where
  blind : Text.Blind matcher
  part : ∀ {part rest : Text}, BraceFree part → part ≠ [] → Ends rest ∨ ';' ∈ part →
    matcher none (part ++ rest) = none
  closer : ∀ rest, matcher none ('}' :: rest) = none
  opener : ∀ {prelude inner : Text}, Undelimited prelude → Nested inner →
    matcher none (prelude ++ '{' :: inner) = none

theorem passes_blockMatcher : Passes blockMatcher where
  blind := by
    intro before other text
    cases text <;> rfl
  part := by
    intro part rest free ink _
    obtain ⟨c, tail, rfl⟩ := List.exists_cons_of_ne_nil ink
    exact blockMatcher_other (free.curly_free c (List.mem_cons_self ..)).1 none _
  closer := fun rest => blockMatcher_other (by decide) none rest
  opener := by
    intro prelude inner free nested
    cases prelude with
    | nil => exact blockMatcher_nested nested none
    | cons c tail =>
      exact blockMatcher_other (free.braceFree.curly_free c (List.mem_cons_self ..)).1 none _

theorem ruleMatcher_blind : Text.Blind ruleMatcher := by
  intro before other text
  rw [ruleMatcher, ruleMatcher, passes_blockMatcher.blind before other]

theorem passes_ruleMatcher : Passes ruleMatcher where
  blind := ruleMatcher_blind
  part := fun free _ ends => ruleMatcher_part free ends none
  closer := fun rest => @ruleMatcher_part [] _ (by simp [BraceFree]) (.inl (ends_closer rest)) none
  opener := fun free nested => ruleMatcher_nested free nested none

/-- The sign that a text starts with is in its first part, if that is not blank or what follows
starts with other ink. -/
theorem exists_sign {part rest after : Text}
    (ink : Text.trimLeft part ≠ [] ∨ ∀ c ∈ rest.head?, Text.isBlank c = false ∧ c ≠ '@')
    (start : Text.trimLeft (part ++ rest) = '@' :: after) :
    ∃ behind, Text.trimLeft part = '@' :: behind ∧ after = behind ++ rest := by
  -- A blank part leaves the sign to what follows, which does not start with one.
  by_cases blank : Text.trimLeft part = []
  · have other := ink.resolve_left (fun some => some blank)
    rw [Text.trimLeft_blank_append (Text.blank_of_trimLeft_eq_nil blank)] at start
    cases rest with
    | nil => simp [Text.trimLeft] at start
    | cons c rest =>
      obtain ⟨inked, sign⟩ := other c rfl
      rw [Text.trimLeft_cons inked, List.cons.injEq] at start
      exact absurd start.1 sign
  · rw [Text.trimLeft_append blank] at start
    cases first : Text.trimLeft part with
    | nil => exact absurd first blank
    | cons c behind =>
      rw [first, List.cons_append, List.cons.injEq] at start
      exact ⟨behind, by rw [start.1], start.2.symm⟩

theorem Undelimited.behind {text behind : Text} {c : Char} (free : Undelimited text)
    (start : Text.trimLeft text = c :: behind) : Undelimited behind :=
  fun d member => free d (Text.mem_of_mem_trimLeft (start ▸ List.mem_cons_of_mem _ member))

theorem BraceFree.behind {text behind : Text} {c : Char} (free : BraceFree text)
    (start : Text.trimLeft text = c :: behind) : BraceFree behind :=
  fun d member => free d (Text.mem_of_mem_trimLeft (start ▸ List.mem_cons_of_mem _ member))

theorem passes_emptyAtRuleMatcher : Passes emptyAtRuleMatcher where
  blind := by
    intro before other text
    simp only [emptyAtRuleMatcher, ruleMatcher_blind before other]
  part := by
    intro part rest free _ ends
    apply emptyAtRuleMatcher_eq_none
    intro after selector body size start found
    have ink : Text.trimLeft part ≠ [] ∨ ∀ c ∈ rest.head?, Text.isBlank c = false ∧ c ≠ '@' := by
      rcases ends with ends | member
      · refine .inr fun c first => ?_
        rw [ends c first]
        decide
      · exact .inl (List.ne_nil_of_mem (Text.mem_trimLeft_of_ink member (by decide)))
    obtain ⟨behind, sign, rfl⟩ := exists_sign ink start
    -- A semicolon of the part is still there behind the sign.
    have behindEnds : Ends rest ∨ ';' ∈ behind := by
      refine ends.imp_right fun member => ?_
      have inside := Text.mem_trimLeft_of_ink member (by decide)
      rw [sign] at inside
      exact (List.mem_cons.mp inside).resolve_left (by decide)
    rw [ruleMatcher_part (free.behind sign) behindEnds] at found
    simp at found
  closer := by
    intro rest
    apply emptyAtRuleMatcher_eq_none
    intro after selector body size start found
    rw [Text.trimLeft_cons (by decide), List.cons.injEq] at start
    exact absurd start.1 (by decide)
  opener := by
    intro prelude inner free nested
    apply emptyAtRuleMatcher_eq_none
    intro after selector body size start found
    obtain ⟨behind, sign, rfl⟩ := exists_sign (.inr (by simp; decide)) start
    rw [ruleMatcher_nested (free.behind sign) nested] at found
    simp at found

/-- A block that is not blank is no empty at-rule, wherever the search in it starts. -/
theorem emptyAtRuleMatcher_ink {selector body rest : Text} (free : Undelimited selector)
    (bodyFree : BraceFree body) (ink : ¬Text.Blank body) :
    emptyAtRuleMatcher none (selector ++ '{' :: (body ++ '}' :: rest)) = none := by
  apply emptyAtRuleMatcher_eq_none
  intro after other inner size start found
  obtain ⟨behind, sign, rfl⟩ := exists_sign (.inr (by simp; decide)) start
  rw [ruleMatcher_block (free.behind sign) bodyFree] at found
  simp only [Option.some.injEq, Prod.mk.injEq] at found
  rwa [← found.1.2]

/-! ### Fragments -/

section fragments

variable {α : Type} {matcher : Text.Matcher α} (passes : Passes matcher)
include passes

theorem Passes.fragments_tail {content rest : Text} (free : BraceFree content) (ends : Ends rest) :
    Text.fragments matcher none (content ++ rest)
      = content.map .plain ++ Text.fragments matcher none rest := by
  apply Text.fragments_append_of_none passes.blind
  intro suffix ink tail
  exact passes.part (fun c member => free c (tail.subset member)) ink (.inl ends)

theorem Passes.fragments_statement {prelude : Text} (free : Undelimited prelude) (rest : Text) :
    Text.fragments matcher none (prelude ++ ';' :: rest)
      = (prelude ++ [';']).map .plain ++ Text.fragments matcher none rest := by
  apply Text.fragments_concat_of_none passes.blind
  -- Every start inside the statement still has the semicolon behind it.
  intro before starts
  have front : BraceFree before := fun c member => free.braceFree c (starts.subset member)
  have whole : BraceFree (before ++ [';']) := front.append (by simp [BraceFree, isBrace])
  have misses := @passes.part _ rest whole (by simp) (.inr (by simp))
  rwa [List.append_assoc, List.singleton_append] at misses

theorem Passes.fragments_closer (rest : Text) :
    Text.fragments matcher none ('}' :: rest) = .plain '}' :: Text.fragments matcher none rest :=
  Text.fragments_cons_of_none passes.blind (passes.closer rest)

theorem Passes.fragments_opener {prelude inner : Text} (free : Undelimited prelude)
    (nested : Nested inner) :
    Text.fragments matcher none (prelude ++ '{' :: inner)
      = (prelude ++ ['{']).map .plain ++ Text.fragments matcher none inner := by
  apply Text.fragments_concat_of_none passes.blind
  -- Every start inside the prelude still meets the brace, and the nested one behind it.
  intro before starts
  exact passes.opener (fun c member => free c (starts.subset member)) nested

end fragments

end ThemeCss.Variables
