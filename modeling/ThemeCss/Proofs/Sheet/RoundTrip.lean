import ThemeCss.Proofs.Sheet.WellFormed

/-!
# Reading what was written

The written form of a well-formed sheet is read back as the sheet. The induction is over the nodes
and those inside a group. It is on the text of a node with any text behind it, because the reader
does not know where a node ends before it has read it.
-/
namespace ThemeCss.Sheet

open Scan Variables

/-! ### Comments -/

mutual

theorem Node.commentFree_write : ∀ {node : Node}, node.WellFormed → ∀ {rest : Text},
    CommentFree rest → CommentFree (node.write ++ rest)
  | .rule selector declarations, ⟨⟨isHeading, _⟩, each⟩, rest, free => by
    have block := isHeading.commentFree.block (Declaration.commentFree_writeAll each) free
    simpa [Node.write] using block
  | .statement prelude, ⟨isHeading, _, _⟩, rest, free => by
    have parts : CommentFree (prelude ++ ';' :: rest) :=
      (CommentFree.append_cons_iff (by decide) (by decide)).mpr ⟨isHeading.commentFree, free⟩
    simpa [Node.write] using parts
  | .group prelude children, ⟨⟨isHeading, _, _⟩, _, each⟩, rest, free => by
    have inner : CommentFree (Node.writeAll children ++ []) := Node.commentFree_writeAll each rfl
    rw [List.append_nil] at inner
    have block := isHeading.commentFree.block inner free
    simpa [Node.write] using block
  | .block prelude body, ⟨⟨isHeading, _, _⟩, isRawBody⟩, rest, free => by
    have block := isHeading.commentFree.block isRawBody.commentFree free
    simpa [Node.write] using block

theorem Node.commentFree_writeAll : ∀ {nodes : List Node}, Node.AllWellFormed nodes →
    ∀ {rest : Text}, CommentFree rest → CommentFree (Node.writeAll nodes ++ rest)
  | [], _, _, free => free
  | node :: nodes, ⟨wellFormed, others⟩, rest, free => by
    rw [Node.writeAll, List.append_assoc]
    exact Node.commentFree_write wellFormed (Node.commentFree_writeAll others free)

end

/-! ### Groups -/

/-- What is written for a node other than a statement is a block behind a heading. -/
theorem Node.hasNestedBlock_write {node : Node} (wellFormed : node.WellFormed)
    (block : node.isStatement = false) (rest : Text) :
    hasNestedBlock (node.write ++ rest) = true := by
  cases node with
  | rule selector declarations =>
    obtain ⟨⟨isHeading, _⟩, each⟩ := wellFormed
    have found := hasNestedBlock_of_closed isHeading.braceFree.not_mem
      ((Declaration.paired_writeAll each).split? rest)
    simpa [Node.write] using found
  | statement prelude => simp [Node.isStatement] at block
  | group prelude children =>
    obtain ⟨⟨isHeading, _, _⟩, _, each⟩ := wellFormed
    have found := hasNestedBlock_of_closed isHeading.braceFree.not_mem
      ((Node.paired_writeAll each).split? rest)
    simpa [Node.write] using found
  | block prelude body =>
    obtain ⟨⟨isHeading, _, _⟩, isRawBody⟩ := wellFormed
    have found := hasNestedBlock_of_closed isHeading.braceFree.not_mem
      (isRawBody.paired.split? rest)
    simpa [Node.write] using found

/-- The statements in front hold no brace, so the first brace is that of a node with a block. -/
theorem Node.hasNestedBlock_writeAll {nodes : List Node} (wellFormed : Node.AllWellFormed nodes)
    (block : ∃ node ∈ nodes, node.isStatement = false) :
    hasNestedBlock (Node.writeAll nodes) = true := by
  induction nodes with
  | nil => simp at block
  | cons node nodes ih =>
    cases kind : node.isStatement with
    | false => exact Node.hasNestedBlock_write wellFormed.1 kind (Node.writeAll nodes)
    | true =>
      cases node with
      | statement prelude =>
        obtain ⟨⟨isHeading, _, _⟩, others⟩ := wellFormed
        have free : '{' ∉ prelude ++ [';'] := by simp [isHeading.braceFree.not_mem]
        rw [Node.writeAll, Node.write, hasNestedBlock_append free]
        exact ih others (by simpa [kind] using block)
      | rule selector declarations => simp [Node.isStatement] at kind
      | group prelude children => simp [Node.isStatement] at kind
      | block prelude body => simp [Node.isStatement] at kind

/-! ### Reading -/

mutual

theorem Node.readNodes_write : ∀ {node : Node}, node.WellFormed → ∀ rest : Text,
    readNodes (node.write ++ rest) = (node :: (readNodes rest).1, (readNodes rest).2)
  | .rule selector declarations, ⟨⟨isHeading, opens⟩, each⟩, rest => by
    have step := readNodes_rule opens isHeading.braceFree.not_mem
      ((Declaration.paired_writeAll each).split? rest)
    rw [isHeading.trim_eq, Declaration.parseAll_writeAll_of_wellFormed each] at step
    simpa [Node.write] using step
  | .statement prelude, ⟨isHeading, opens, free⟩, rest => by
    have step := readNodes_statement opens (IsPrelude.endsPrelude ⟨isHeading, opens, free⟩) rest
    rw [isHeading.trim_eq] at step
    simpa [Node.write] using step
  | .group prelude children, ⟨⟨isHeading, opens, free⟩, nested, each⟩, rest => by
    have step := readNodes_atBlock opens (IsPrelude.endsPrelude ⟨isHeading, opens, free⟩)
      ((Node.paired_writeAll each).split? rest)
    -- The nodes inside are read to the end of the block.
    have inside := Node.readNodes_writeAll each []
    rw [List.append_nil, readNodes_of_blank Text.blank_nil, List.append_nil] at inside
    rw [Node.hasNestedBlock_writeAll each nested, inside, isHeading.trim_eq] at step
    simpa [Node.write] using step
  | .block prelude body, ⟨⟨isHeading, opens, free⟩, isRawBody⟩, rest => by
    have step := readNodes_atBlock opens (IsPrelude.endsPrelude ⟨isHeading, opens, free⟩)
      (isRawBody.paired.split? rest)
    rw [isRawBody.flat, isHeading.trim_eq, Text.trim_of_trimmed isRawBody.trimmed] at step
    simpa [Node.write] using step

theorem Node.readNodes_writeAll : ∀ {nodes : List Node}, Node.AllWellFormed nodes →
    ∀ rest : Text,
      readNodes (Node.writeAll nodes ++ rest) = (nodes ++ (readNodes rest).1, (readNodes rest).2)
  | [], _, _ => rfl
  | node :: nodes, ⟨wellFormed, others⟩, rest => by
    rw [Node.writeAll, List.append_assoc, Node.readNodes_write wellFormed,
      Node.readNodes_writeAll others]
    rfl

end

theorem readNodes_trailing {trailing : Text} (isTrailing : IsTrailing trailing) :
    readNodes trailing = ([], trailing) := by
  obtain ⟨before, opened, rfl, free⟩ := List.eq_append_cons_of_mem isTrailing.brace
  -- The first brace is the one that has no partner.
  have unclosed : Bracket.curly.split? opened = none := by
    have flat := isTrailing.unclosed
    rw [hasNestedBlock, Text.splitAtWord?_singleton free] at flat
    simpa using flat
  have plain : opensAt before = false := by
    cases opens : opensAt before with
    | false => rfl
    | true =>
      obtain ⟨rest, start⟩ := exists_of_opensAt opens
      have whole : Text.trimLeft (before ++ '{' :: opened) = '@' :: (rest ++ '{' :: opened) := by
        rw [trimLeft_append_ink _ (by decide), start]
        rfl
      have contrary := isTrailing.plain
      simp [opensAt, whole] at contrary
  rw [readNodes_unclosed plain free unclosed, Text.trim_of_trimmed isTrailing.trimmed]

section written

variable {sheet : Sheet} (wellFormed : sheet.WellFormed)
include wellFormed

theorem commentFree_write : CommentFree sheet.write := by
  obtain ⟨each, rest⟩ := wellFormed
  apply Node.commentFree_writeAll each
  rcases rest with none | isTrailing
  · rw [none]
    rfl
  · exact isTrailing.commentFree

theorem readNodes_write : readNodes sheet.write = (sheet.nodes, sheet.trailing) := by
  obtain ⟨each, rest⟩ := wellFormed
  have last : readNodes sheet.trailing = ([], sheet.trailing) := by
    rcases rest with none | isTrailing
    · rw [none]
      exact readNodes_of_blank Text.blank_nil
    · exact readNodes_trailing isTrailing
  rw [write, Node.readNodes_writeAll each, last, List.append_nil]

/-- A well-formed sheet is read back from its written form. -/
theorem parse_written : parse sheet.write = sheet := by
  rw [parse_of_commentFree (commentFree_write wellFormed), readNodes_write wellFormed]

end written

/-- A string that holds a brace and a semicolon, a semicolon in parentheses, a group in a group, a
body that is not read further, and a rule that is never closed. -/
def nested : Sheet where
  nodes :=
    [.statement "@import url(a)".toList,
      .group "@media print".toList
        [.statement "@layer base".toList,
          .rule "p > q".toList
            [{ property := "content".toList
               value := r#""};" url(a;b)"#.toList
               important := true },
              { property := "--x".toList, value := "1px".toList }],
          .group "@supports (d: e)".toList [.block "@page".toList "margin: 1px".toList]],
      .block "@font-face".toList r"src: url('}')".toList]
  trailing := r"p { color: red".toList

theorem parse_written_nested : nested.WellFormed ∧ parse nested.write = nested := by
  have wellFormed : nested.WellFormed := by decide
  exact ⟨wellFormed, parse_written wellFormed⟩

end ThemeCss.Sheet
