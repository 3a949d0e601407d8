import ThemeCss.Proofs.Sheet.Upright

/-!
# Well-formed sheets

What can be written and read back. Every part stands on its own: headings and names hold nothing
that a scan looks for, values and bodies close the strings and the brackets they open. So the
written form of a node is paired, that is, closed with every brace in code balanced, and it opens no
comment.
-/
namespace ThemeCss.Sheet

open Scan Variables

/-- The strings and the braces that the text opens are closed in it. -/
structure Paired (text : Text) : Prop where
  closed : Closed text
  balanced : Bracket.curly.Balanced text

instance (text : Text) : Decidable (Paired text) :=
  decidable_of_iff (Closed text ∧ Bracket.curly.Balanced text)
    ⟨fun ⟨closed, balanced⟩ => ⟨closed, balanced⟩, fun ⟨closed, balanced⟩ => ⟨closed, balanced⟩⟩

namespace Paired

theorem nil : Paired [] := by
  constructor
  · exact closed_nil
  · rfl

theorem append {first second : Text} (left : Paired first) (right : Paired second) :
    Paired (first ++ second) := by
  constructor
  · exact left.closed.append right.closed
  · exact left.balanced.append left.closed right.balanced

theorem block {head body rest : Text} (headPaired : Paired head) (bodyPaired : Paired body)
    (restPaired : Paired rest) : Paired (head ++ '{' :: (body ++ '}' :: rest)) := by
  constructor
  · exact Layout.closed_block headPaired.closed bodyPaired.closed restPaired.closed
  · exact Layout.balanced_block headPaired.closed bodyPaired.closed headPaired.balanced
      bodyPaired.balanced restPaired.balanced

theorem split? {body : Text} (paired : Paired body) (after : Text) :
    Bracket.curly.split? (body ++ '}' :: after) = some (body, after) :=
  Bracket.split?_of_balanced Bracket.curly_sound paired.closed paired.balanced after

end Paired

/-- A search for the closing brace ends at the end of a text exactly when the text is paired. -/
theorem closing?_iff_paired {body : Text} :
    Bracket.curly.closing? ('{' :: (body ++ ['}'])) 0 = some (body.length + 1) ↔ Paired body := by
  have opens : ('{' :: (body ++ ['}'])).drop 0 = '{' :: (body ++ ['}']) := rfl
  rw [Bracket.closing?_of_opener Bracket.curly_sound opens]
  constructor
  · intro ends
    simp only [Option.map_eq_some_iff, Prod.exists] at ends
    obtain ⟨inside, after, found, size⟩ := ends
    -- What is found is as long as the body, and both start the same text.
    have same : inside = body := by
      have parts := Bracket.splitFrom?_sound found
      apply (List.append_inj parts _).1.symm
      omega
    subst same
    obtain ⟨balanced, closed⟩ := Bracket.balanced_of_split? Bracket.curly_sound found
    exact ⟨closed, balanced⟩
  · intro paired
    simp [paired.split? [], Nat.add_comm]

theorem CommentFree.block {head body rest : Text} (headFree : CommentFree head)
    (bodyFree : CommentFree body) (restFree : CommentFree rest) :
    CommentFree (head ++ '{' :: (body ++ '}' :: rest)) := by
  rw [append_cons_iff (by decide) (by decide), append_cons_iff (by decide) (by decide)]
  exact ⟨headFree, bodyFree, restFree⟩

/-! ### Declarations -/

namespace Declaration

/-- What can be written into a block and read back from there: a name that holds nothing a scan
looks for, and a value that leaves nothing open and shows no semicolon. -/
structure WellFormed (declaration : Declaration) : Prop where
  named : declaration.property ≠ []
  property : Text.Trimmed declaration.property
  free : Text.Avoids [':', ';', '{', '}', '(', ')', '\'', '"', '\\'] declaration.property
  valued : declaration.value ≠ []
  value : Text.Trimmed declaration.value
  closed : Closed declaration.value
  round : Bracket.round.Balanced declaration.value
  curly : Bracket.curly.Balanced declaration.value
  uncut : solid 0 .code declaration.value = true
  unmarked : dropImportant? declaration.value = none
  commentFree : CommentFree declaration.property ∧ CommentFree declaration.value

instance (declaration : Declaration) : Decidable declaration.WellFormed :=
  decidable_of_iff (declaration.property ≠ [] ∧ Text.Trimmed declaration.property ∧
      Text.Avoids [':', ';', '{', '}', '(', ')', '\'', '"', '\\'] declaration.property ∧
      declaration.value ≠ [] ∧ Text.Trimmed declaration.value ∧ Closed declaration.value ∧
      Bracket.round.Balanced declaration.value ∧ Bracket.curly.Balanced declaration.value ∧
      solid 0 .code declaration.value = true ∧ dropImportant? declaration.value = none ∧
      CommentFree declaration.property ∧ CommentFree declaration.value)
    ⟨fun ⟨named, property, free, valued, value, closed, round, curly, uncut, unmarked,
          commentFree⟩ =>
        ⟨named, property, free, valued, value, closed, round, curly, uncut, unmarked, commentFree⟩,
      fun ⟨named, property, free, valued, value, closed, round, curly, uncut, unmarked,
          commentFree⟩ =>
        ⟨named, property, free, valued, value, closed, round, curly, uncut, unmarked, commentFree⟩⟩

variable {declaration : Declaration}

theorem WellFormed.readable (wellFormed : declaration.WellFormed) : declaration.Readable where
  named := wellFormed.named
  property := wellFormed.property
  colonFree := fun member => wellFormed.free _ member (by decide)
  valued := wellFormed.valued
  value := wellFormed.value
  mark := .inr wellFormed.unmarked

theorem WellFormed.inert_property (wellFormed : declaration.WellFormed) :
    ∀ c ∈ declaration.property, isInert c = true :=
  inert_of_avoids (wellFormed.free.of_subset (by decide))

theorem WellFormed.whole_write (wellFormed : declaration.WellFormed) : Whole declaration.write :=
  wellFormed.readable.whole_write wellFormed.inert_property
    ⟨wellFormed.uncut, nestingAfter_of_balanced wellFormed.round, wellFormed.closed⟩

theorem WellFormed.paired_write (wellFormed : declaration.WellFormed) :
    Paired declaration.write := by
  apply wellFormed.readable.write_induction .nil (fun _ _ => Paired.append)
  · exact ⟨by decide, by decide⟩
  · exact ⟨by decide, by decide⟩
  · constructor
    · exact (whole_of_inert wellFormed.inert_property).closed
    · apply Bracket.balanced_of_free
      intro c member
      have free := wellFormed.free c member
      simp only [List.mem_cons, List.not_mem_nil, or_false, not_or] at free
      simp [Bracket.curly, free]
  · exact ⟨wellFormed.closed, wellFormed.curly⟩

theorem WellFormed.commentFree_write (wellFormed : declaration.WellFormed) :
    CommentFree declaration.write :=
  holds_opener_write wellFormed.commentFree.1 wellFormed.commentFree.2

section block

variable {declarations : List Declaration}
  (wellFormed : ∀ declaration ∈ declarations, declaration.WellFormed)
include wellFormed

theorem parseAll_writeAll_of_wellFormed : parseAll (writeAll declarations) = declarations := by
  apply parseAll_writeAll
  · intro declaration member
    exact (wellFormed declaration member).readable
  · intro declaration member
    exact (wellFormed declaration member).whole_write

theorem paired_writeAll : Paired (writeAll declarations) := by
  apply Text.intercalate_induction .nil (fun _ _ => Paired.append)
  · exact ⟨by decide, by decide⟩
  · simpa using fun declaration member => (wellFormed declaration member).paired_write

theorem trimmed_writeAll : Text.Trimmed (writeAll declarations) := by
  apply Text.trimmed_join
  intro part listed
  obtain ⟨declaration, member, rfl⟩ := List.mem_map.mp listed
  have readable := (wellFormed declaration member).readable
  exact ⟨write_ne_nil readable.wellFormed, trimmed_write_of_readable readable⟩

theorem commentFree_writeAll : CommentFree (writeAll declarations) := by
  apply CommentFree.join Text.blank_nil
  simpa using fun declaration member => (wellFormed declaration member).commentFree_write

end block

end Declaration

/-! ### Nodes -/

/-- A selector or a prelude. -/
structure IsHeading (heading : Text) : Prop where
  ink : heading ≠ []
  trimmed : Text.Trimmed heading
  free : Text.Avoids ['{', '}', '\'', '"', '\\'] heading
  commentFree : CommentFree heading

/-- The body of an at-rule that is not read further: a search for its closing brace comes to its
end, and no block is found in it. -/
structure IsRawBody (body : Text) : Prop where
  trimmed : Text.Trimmed body
  commentFree : CommentFree body
  flat : hasNestedBlock body = false
  ends : Bracket.curly.closing? ('{' :: (body ++ ['}'])) 0 = some (body.length + 1)

/-- What the reader leaves over: a selector with a block that is never closed. -/
structure IsTrailing (trailing : Text) : Prop where
  trimmed : Text.Trimmed trailing
  commentFree : CommentFree trailing
  plain : opensAt trailing = false
  brace : '{' ∈ trailing
  unclosed : hasNestedBlock trailing = false

instance (heading : Text) : Decidable (IsHeading heading) :=
  decidable_of_iff (heading ≠ [] ∧ Text.Trimmed heading ∧
      Text.Avoids ['{', '}', '\'', '"', '\\'] heading ∧ CommentFree heading)
    ⟨fun ⟨ink, trimmed, free, commentFree⟩ => ⟨ink, trimmed, free, commentFree⟩,
      fun ⟨ink, trimmed, free, commentFree⟩ => ⟨ink, trimmed, free, commentFree⟩⟩

instance (body : Text) : Decidable (IsRawBody body) :=
  decidable_of_iff (Text.Trimmed body ∧ CommentFree body ∧ hasNestedBlock body = false ∧
      Bracket.curly.closing? ('{' :: (body ++ ['}'])) 0 = some (body.length + 1))
    ⟨fun ⟨trimmed, commentFree, flat, ends⟩ => ⟨trimmed, commentFree, flat, ends⟩,
      fun ⟨trimmed, commentFree, flat, ends⟩ => ⟨trimmed, commentFree, flat, ends⟩⟩

instance (trailing : Text) : Decidable (IsTrailing trailing) :=
  decidable_of_iff (Text.Trimmed trailing ∧ CommentFree trailing ∧ opensAt trailing = false ∧
      '{' ∈ trailing ∧ hasNestedBlock trailing = false)
    ⟨fun ⟨trimmed, commentFree, plain, brace, unclosed⟩ =>
        ⟨trimmed, commentFree, plain, brace, unclosed⟩,
      fun ⟨trimmed, commentFree, plain, brace, unclosed⟩ =>
        ⟨trimmed, commentFree, plain, brace, unclosed⟩⟩

def IsSelector (selector : Text) : Prop := IsHeading selector ∧ opensAt selector = false

def IsPrelude (prelude : Text) : Prop :=
  IsHeading prelude ∧ opensAt prelude = true ∧ ';' ∉ prelude

instance (selector : Text) : Decidable (IsSelector selector) :=
  inferInstanceAs (Decidable (_ ∧ _))

instance (prelude : Text) : Decidable (IsPrelude prelude) :=
  inferInstanceAs (Decidable (_ ∧ _ ∧ _))

mutual

/-- A group holds a block, or it would be read as a body. -/
def Node.WellFormed : Node → Prop
  | .rule selector declarations =>
    IsSelector selector ∧ ∀ declaration ∈ declarations, declaration.WellFormed
  | .statement prelude => IsPrelude prelude
  | .group prelude children =>
    IsPrelude prelude ∧ (∃ child ∈ children, child.isStatement = false) ∧
      Node.AllWellFormed children
  | .block prelude body => IsPrelude prelude ∧ IsRawBody body

def Node.AllWellFormed : List Node → Prop
  | [] => True
  | node :: nodes => node.WellFormed ∧ Node.AllWellFormed nodes

end

mutual

def Node.decideWellFormed : (node : Node) → Decidable node.WellFormed
  | .rule selector declarations =>
    inferInstanceAs (Decidable
      (IsSelector selector ∧ ∀ declaration ∈ declarations, declaration.WellFormed))
  | .statement prelude => inferInstanceAs (Decidable (IsPrelude prelude))
  | .group prelude children =>
    have := Node.decideAllWellFormed children
    inferInstanceAs (Decidable
      (IsPrelude prelude ∧ (∃ child ∈ children, child.isStatement = false) ∧
        Node.AllWellFormed children))
  | .block prelude body => inferInstanceAs (Decidable (IsPrelude prelude ∧ IsRawBody body))

def Node.decideAllWellFormed : (nodes : List Node) → Decidable (Node.AllWellFormed nodes)
  | [] => .isTrue trivial
  | node :: nodes =>
    have := node.decideWellFormed
    have := Node.decideAllWellFormed nodes
    inferInstanceAs (Decidable (node.WellFormed ∧ Node.AllWellFormed nodes))

end

instance (nodes : List Node) : Decidable (Node.AllWellFormed nodes) :=
  Node.decideAllWellFormed nodes

def WellFormed (sheet : Sheet) : Prop :=
  Node.AllWellFormed sheet.nodes ∧ (sheet.trailing = [] ∨ IsTrailing sheet.trailing)

instance (sheet : Sheet) : Decidable sheet.WellFormed := inferInstanceAs (Decidable (_ ∧ (_ ∨ _)))

/-! ### Headings and bodies -/

namespace IsHeading

variable {heading : Text} (isHeading : IsHeading heading)
include isHeading

theorem braceFree : BraceFree heading :=
  braceFree_of_avoids (isHeading.free.of_subset (by decide))

theorem paired : Paired heading := by
  constructor
  · apply closed_of_ordinary
    exact ordinary_of_avoids (isHeading.free.of_subset (by decide))
  · exact isHeading.braceFree.balanced

theorem trim_eq : Text.trim heading = heading := Text.trim_of_trimmed isHeading.trimmed

end IsHeading

theorem IsPrelude.endsPrelude {prelude : Text} (isPrelude : IsPrelude prelude) :
    ∀ c ∈ prelude, Sheet.endsPrelude c = false := by
  obtain ⟨isHeading, _, free⟩ := isPrelude
  intro c member
  have brace := (isHeading.braceFree.curly_free c member).1
  have semicolon : c ≠ ';' := by
    rintro rfl
    exact free member
  simp [Sheet.endsPrelude, brace, semicolon]

theorem IsRawBody.paired {body : Text} (isRawBody : IsRawBody body) : Paired body :=
  closing?_iff_paired.mp isRawBody.ends

/-! ### Written nodes -/

mutual

/-- No statement is written with a brace, and no other node without a block. -/
theorem Node.paired_write : ∀ {node : Node}, node.WellFormed → Paired node.write
  | .rule selector declarations, wellFormed => by
    obtain ⟨⟨isHeading, _⟩, each⟩ := wellFormed
    have block := isHeading.paired.block (Declaration.paired_writeAll each) .nil
    simpa [Node.write] using block
  | .statement prelude, wellFormed => by
    obtain ⟨isHeading, _, _⟩ := wellFormed
    exact isHeading.paired.append ⟨by decide, by decide⟩
  | .group prelude children, wellFormed => by
    obtain ⟨⟨isHeading, _, _⟩, _, each⟩ := wellFormed
    have block := isHeading.paired.block (Node.paired_writeAll each) .nil
    simpa [Node.write] using block
  | .block prelude body, wellFormed => by
    obtain ⟨⟨isHeading, _, _⟩, isRawBody⟩ := wellFormed
    have block := isHeading.paired.block isRawBody.paired .nil
    simpa [Node.write] using block

theorem Node.paired_writeAll :
    ∀ {nodes : List Node}, Node.AllWellFormed nodes → Paired (Node.writeAll nodes)
  | [], _ => .nil
  | _ :: _, wellFormed =>
    (Node.paired_write wellFormed.1).append (Node.paired_writeAll wellFormed.2)

end

end ThemeCss.Sheet
