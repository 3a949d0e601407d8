import ThemeCss.Proofs.Scan.Comment
import ThemeCss.Proofs.Sheet.Reader

/-!
# Statements read whole

A statement is an at-rule without a block. The reader takes the first brace or semicolon behind the
sign for its end, in a string or between parentheses too. So a statement is read whole exactly if
it holds neither, and an address with a semicolon is cut at it: what stands behind is read as if it
were a part of the sheet.
-/
namespace ThemeCss.Sheet

open Scan

/-- The text of an at-rule up to its end: its sign comes first, it ends in ink, and no comment opens
in it. -/
structure IsAtRule (prelude : Text) : Prop where
  sign : prelude.head? = some '@'
  trimmed : Text.Trimmed prelude
  commentFree : Text.holds Comment.opener prelude = false

theorem IsAtRule.opensAt {prelude : Text} (isAtRule : IsAtRule prelude) :
    opensAt prelude = true := by
  rw [opensAt_eq, Text.trim_of_trimmed isAtRule.trimmed, isAtRule.sign]
  rfl

section cut

variable {front : Text} (opens : opensAt front = true)
  (commentFree : Text.holds Comment.opener front = false)
  (free : ∀ c ∈ front, endsPrelude c = false)
include opens commentFree free

/-- The first semicolon ends a statement. -/
theorem parse_statement_append (behind : Text) :
    parse (front ++ ';' :: behind)
      = ⟨.statement (Text.trim front) :: (parse behind).nodes, (parse behind).trailing⟩ := by
  rw [parse_eq, parse_eq, Comment.strip_append (by decide) (by decide) commentFree,
    readNodes_statement opens free]

/-- Where a brace comes first, no statement is read. -/
theorem head?_parse_brace (behind prelude : Text) :
    (parse (front ++ '{' :: behind)).nodes.head? ≠ some (.statement prelude) := by
  rw [parse_eq, Comment.strip_append (by decide) (by decide) commentFree]
  cases closed : Bracket.curly.split? (Comment.strip behind) with
  | none =>
    obtain ⟨rest, start⟩ := exists_of_opensAt opens
    have passes : ∀ c ∈ rest, (!endsPrelude c) = true := by
      intro c member
      rw [free c (Text.mem_of_mem_trimLeft (start ▸ List.mem_cons_of_mem _ member))]
      rfl
    have whole : Text.trimLeft (front ++ '{' :: Comment.strip behind)
        = '@' :: (rest ++ '{' :: Comment.strip behind) := by
      rw [trimLeft_append_ink _ (by decide), start]
      rfl
    rw [readNodes_at whole, Text.dropWhile_stop passes (by decide)]
    simp [closed]
  | some parts =>
    rw [readNodes_atBlock opens free closed]
    simp only [List.head?_cons, ne_eq, Option.some.injEq]
    split <;> exact Node.noConfusion

end cut

/-- The part of a prelude before a brace or a semicolon. -/
theorem IsAtRule.front {front back : Text} {c : Char} (isAtRule : IsAtRule (front ++ c :: back))
    (stop : endsPrelude c = true) :
    Sheet.opensAt front = true ∧ Text.holds Comment.opener front = false := by
  have opens := isAtRule.opensAt
  rw [opensAt_append stop] at opens
  exact ⟨opens, Text.not_holds_of_part isAtRule.commentFree (List.prefix_append ..).isInfix⟩

variable {prelude : Text}

/-- A statement that is not read whole ends before one of its own characters. -/
theorem IsAtRule.free_of_head? (isAtRule : IsAtRule prelude) {behind : Text}
    (whole : (parse (prelude ++ ';' :: behind)).nodes.head? = some (.statement prelude)) :
    ∀ c ∈ prelude, endsPrelude c = false := by
  rcases Text.exists_stop endsPrelude prelude with free | ⟨front, c, back, rfl, stop, free⟩
  · exact free
  · obtain ⟨opens, commentFree⟩ := isAtRule.front stop
    rw [List.append_assoc, List.cons_append] at whole
    simp only [endsPrelude, Bool.or_eq_true, beq_iff_eq] at stop
    rcases stop with rfl | rfl
    · exact absurd whole (head?_parse_brace opens commentFree free _ _)
    · -- The statement that is read is no longer than the part before the semicolon.
      rw [parse_statement_append opens commentFree free] at whole
      simp only [List.head?_cons, Option.some.injEq, Node.statement.injEq] at whole
      have size := (Text.trim_inside front).length_le
      rw [whole, List.length_append, List.length_cons] at size
      omega

/-- A statement is read whole, with the rest of the sheet behind it, exactly if it holds no brace
and no semicolon. At its first semicolon, be it in a string or between parentheses, it is cut, and
what stands behind that is read as a sheet. -/
theorem parse_statement (isAtRule : IsAtRule prelude) (rest : Text) :
    (parse (prelude ++ ';' :: rest)
        = ⟨.statement prelude :: (parse rest).nodes, (parse rest).trailing⟩
      ↔ ∀ c ∈ prelude, endsPrelude c = false) ∧
    ∀ front back, prelude = front ++ ';' :: back → (∀ c ∈ front, endsPrelude c = false) →
      parse (prelude ++ ';' :: rest)
        = ⟨.statement (Text.trim front) :: (parse (back ++ ';' :: rest)).nodes,
          (parse (back ++ ';' :: rest)).trailing⟩ := by
  refine ⟨⟨fun whole => ?_, fun free => ?_⟩, ?_⟩
  · exact isAtRule.free_of_head? (by rw [whole]; rfl)
  · rw [parse_statement_append isAtRule.opensAt isAtRule.commentFree free,
      Text.trim_of_trimmed isAtRule.trimmed]
  · rintro front back rfl free
    obtain ⟨opens, commentFree⟩ := isAtRule.front (by decide)
    rw [List.append_assoc, List.cons_append, parse_statement_append opens commentFree free]

/-- An import whose quoted address lists two weights is cut between them, though the semicolon
there stands in a string and between parentheses; one that names a medium is read whole. -/
theorem parse_statement_imports :
    (IsAtRule "@import url(\"fonts.css?w=400;700\") print".toList ∧
      Closed "@import url(\"fonts.css?w=400;700\") print".toList ∧
      Bracket.round.Balanced "@import url(\"fonts.css?w=400;700\") print".toList) ∧
    parse r#"@import url("fonts.css?w=400;700") print;p{q: r}"#.toList
      = ⟨.statement "@import url(\"fonts.css?w=400".toList
          :: (parse r#"700") print;p{q: r}"#.toList).nodes,
        (parse r#"700") print;p{q: r}"#.toList).trailing⟩ ∧
    parse r#"@import url("fonts.css") print;p{q: r}"#.toList
      = ⟨.statement "@import url(\"fonts.css\") print".toList ::
          (parse r"p{q: r}".toList).nodes, (parse r"p{q: r}".toList).trailing⟩ := by
  have cut : IsAtRule "@import url(\"fonts.css?w=400;700\") print".toList :=
    ⟨by decide, by decide +kernel, by decide +kernel⟩
  have whole : IsAtRule "@import url(\"fonts.css\") print".toList :=
    ⟨by decide, by decide +kernel, by decide +kernel⟩
  refine ⟨⟨cut, by decide +kernel, by decide +kernel⟩, ?_, ?_⟩
  · exact (parse_statement cut r"p{q: r}".toList).2 "@import url(\"fonts.css?w=400".toList
      "700\") print".toList (by decide +kernel) (by simp [endsPrelude])
  · exact (parse_statement whole r"p{q: r}".toList).1.mpr (by simp [endsPrelude])

end ThemeCss.Sheet
