import ThemeCss.Proofs.Sheet.Declaration
import ThemeCss.Proofs.Sheet.Reader
import ThemeCss.Proofs.Variables.Block

/-!
# Layouts

Expansion works on the text of a sheet and the reader on its tree. A layout is what both agree on:
the parts between braces and semicolons, with the blanks that stand around them, nested as the
blocks are. Spelling a layout gives the text, and a layout that fits is read as the tree it stands
for. So a pass over the text that is shown to be a pass over layouts is a pass over trees.
-/
namespace ThemeCss.Sheet

open Scan Variables

/-- The parts of a sheet up to the text behind its last block or statement. -/
inductive Layout where
  | tail (content : Text)
  | statement (prelude : Text) (rest : Layout)
  | rule (selector body : Text) (rest : Layout)
  | group (prelude : Text) (inner rest : Layout)

namespace Layout

def spell : Layout → Text
  | .tail content => content
  | .statement prelude rest => prelude ++ ';' :: rest.spell
  | .rule selector body rest => selector ++ '{' :: (body ++ '}' :: rest.spell)
  | .group prelude inner rest => prelude ++ '{' :: (inner.spell ++ '}' :: rest.spell)

/-- Whether a block stands in the layout. -/
def hasBlock : Layout → Bool
  | .tail _ => false
  | .statement _ rest => rest.hasBlock
  | .rule _ _ _ => true
  | .group _ _ _ => true

/-- What the reader makes of a tail. -/
def tailNodes (content : Text) : List Node :=
  if Text.trimLeft content = [] then []
  else if opensAt content then [.statement (Text.trim content)]
  else [.rule anySelector (Declaration.parseAll content)]

/-- What the reader makes of a block without further blocks. -/
def ruleNode (selector body : Text) : Node :=
  if opensAt selector then .block (Text.trim selector) (Text.trim body)
  else .rule (Text.trim selector) (Declaration.parseAll body)

/-- The tree a layout stands for. -/
def nodes : Layout → List Node
  | .tail content => tailNodes content
  | .statement prelude rest => .statement (Text.trim prelude) :: rest.nodes
  | .rule selector body rest => ruleNode selector body :: rest.nodes
  | .group prelude inner rest =>
    (if inner.hasBlock then .group (Text.trim prelude) inner.nodes
      else .block (Text.trim prelude) (Text.trim inner.spell)) :: rest.nodes

/-- What the reader makes of an at-rule around a layout. -/
def groupNode (prelude : Text) (inner : Layout) : Node :=
  if inner.hasBlock then .group (Text.trim prelude) inner.nodes
  else .block (Text.trim prelude) (Text.trim inner.spell)

theorem nodes_group (prelude : Text) (inner rest : Layout) :
    (Layout.group prelude inner rest).nodes = groupNode prelude inner :: rest.nodes := rfl

/-- Puts blanks in front of the first part. -/
def pad (blanks : Text) : Layout → Layout
  | .tail content => .tail (blanks ++ content)
  | .statement prelude rest => .statement (blanks ++ prelude) rest
  | .rule selector body rest => .rule (blanks ++ selector) body rest
  | .group prelude inner rest => .group (blanks ++ prelude) inner rest

/-- The parts inside a group: closed, and none of them a statement. -/
def Sealed : Layout → Prop
  | .tail content => Closed content ∧ opensAt content = false
  | .statement _ _ => False
  | .rule selector _ rest => Closed selector ∧ rest.Sealed
  | .group prelude _ rest => Closed prelude ∧ rest.Sealed

/-- Each part stands where the reader looks for it. -/
def Fits : Layout → Prop
  | .tail content => BraceFree content ∧ (opensAt content = true → ';' ∉ content)
  | .statement prelude rest => Undelimited prelude ∧ opensAt prelude = true ∧ rest.Fits
  | .rule selector body rest =>
    Undelimited selector ∧ BraceFree body ∧ Closed body ∧ rest.Fits
  | .group prelude inner rest =>
    Undelimited prelude ∧ opensAt prelude = true ∧ inner.Fits ∧ inner.Sealed ∧ rest.Fits

theorem endsPrelude_of_undelimited {text : Text} (free : Undelimited text) :
    ∀ c ∈ text, endsPrelude c = false := by
  intro c member
  have delimiter := free c member
  simp only [isDelimiter, isBrace, Bool.or_eq_false_iff] at delimiter
  simp [Sheet.endsPrelude, delimiter]

/-! ### Blocks -/

section block

variable {head body rest : Text} (headClosed : Closed head) (bodyClosed : Closed body)
include headClosed bodyClosed

theorem closed_block (restClosed : Closed rest) :
    Closed (head ++ '{' :: (body ++ '}' :: rest)) :=
  headClosed.append (.cons rfl (bodyClosed.append (.cons rfl restClosed)))

theorem balanced_block (headBalanced : Bracket.curly.Balanced head)
    (bodyBalanced : Bracket.curly.Balanced body) (restBalanced : Bracket.curly.Balanced rest) :
    Bracket.curly.Balanced (head ++ '{' :: (body ++ '}' :: rest)) := by
  have enclosed : Bracket.curly.Balanced ('{' :: body ++ ['}']) :=
    Bracket.Balanced.enclose Bracket.curly_sound bodyClosed bodyBalanced
  have enclosedClosed : Closed ('{' :: body ++ ['}']) :=
    .cons rfl (bodyClosed.append (.cons rfl closed_nil))
  have whole := headBalanced.append headClosed (enclosed.append enclosedClosed restBalanced)
  simpa using whole

end block

theorem closed_spell {layout : Layout} (fits : layout.Fits) (parts : layout.Sealed) :
    Closed layout.spell := by
  induction layout with
  | tail content => exact parts.1
  | statement prelude rest => exact parts.elim
  | rule selector body rest ih => exact closed_block parts.1 fits.2.2.1 (ih fits.2.2.2 parts.2)
  | group prelude inner rest ihInner ihRest =>
    obtain ⟨_, _, innerFits, innerSealed, restFits⟩ := fits
    exact closed_block parts.1 (ihInner innerFits innerSealed) (ihRest restFits parts.2)

theorem balanced_spell {layout : Layout} (fits : layout.Fits) (parts : layout.Sealed) :
    Bracket.curly.Balanced layout.spell := by
  induction layout with
  | tail content => exact fits.1.balanced
  | statement prelude rest => exact parts.elim
  | rule selector body rest ih =>
    obtain ⟨free, bodyFree, bodyClosed, restFits⟩ := fits
    exact balanced_block parts.1 bodyClosed free.braceFree.balanced bodyFree.balanced
      (ih restFits parts.2)
  | group prelude inner rest ihInner ihRest =>
    obtain ⟨free, _, innerFits, innerSealed, restFits⟩ := fits
    exact balanced_block parts.1 (closed_spell innerFits innerSealed) free.braceFree.balanced
      (ihInner innerFits innerSealed) (ihRest restFits parts.2)

/-- The closing brace that the reader finds is the one of the layout. -/
theorem split?_spell {inner : Layout} (fits : inner.Fits) (parts : inner.Sealed) (after : Text) :
    Bracket.curly.split? (inner.spell ++ '}' :: after) = some (inner.spell, after) :=
  Bracket.split?_of_balanced Bracket.curly_sound (closed_spell fits parts)
    (balanced_spell fits parts) after

theorem split?_body {body : Text} (free : BraceFree body) (closed : Closed body) (after : Text) :
    Bracket.curly.split? (body ++ '}' :: after) = some (body, after) :=
  Bracket.split?_of_balanced Bracket.curly_sound closed free.balanced after

theorem hasNestedBlock_spell {layout : Layout} (fits : layout.Fits) (parts : layout.Sealed) :
    hasNestedBlock layout.spell = layout.hasBlock := by
  -- Only the first part matters: a block there is closed, and without one the layout is a tail.
  cases layout with
  | tail content => exact hasNestedBlock_of_free fits.1.not_mem
  | statement prelude rest => exact parts.elim
  | rule selector body rest =>
    exact hasNestedBlock_of_closed fits.1.braceFree.not_mem (split?_body fits.2.1 fits.2.2.1 _)
  | group prelude inner rest =>
    obtain ⟨free, _, innerFits, innerSealed, _⟩ := fits
    exact hasNestedBlock_of_closed free.braceFree.not_mem (split?_spell innerFits innerSealed _)

theorem readNodes_tail {content : Text} (free : BraceFree content)
    (last : opensAt content = true → ';' ∉ content) :
    readNodes content = (tailNodes content, []) := by
  -- Blank, a statement that nothing ends, or bare declarations.
  by_cases blank : Text.trimLeft content = []
  · rw [readNodes_of_blank (Text.blank_of_trimLeft_eq_nil blank), tailNodes, if_pos blank]
  · cases opens : opensAt content with
    | true =>
      have ends : ∀ c ∈ content, endsPrelude c = false := by
        intro c member
        have brace := (free.curly_free c member).1
        have semicolon : c ≠ ';' := by
          rintro rfl
          exact last opens member
        simp [endsPrelude, brace, semicolon]
      rw [readNodes_lastStatement opens ends, tailNodes, if_neg blank, if_pos opens]
    | false =>
      rw [readNodes_bare opens free.not_mem blank, tailNodes, if_neg blank, opens,
        Declaration.parseAll_trimLeft]
      rfl

/-- A layout that fits is read as the tree it stands for, to the end. -/
theorem readNodes_spell {layout : Layout} (fits : layout.Fits) :
    readNodes layout.spell = (layout.nodes, []) := by
  -- Each part is one step of the reader, and the induction takes what stands behind and inside.
  induction layout with
  | tail content => exact readNodes_tail fits.1 fits.2
  | statement prelude rest ih =>
    obtain ⟨free, opens, restFits⟩ := fits
    rw [spell, readNodes_statement opens (endsPrelude_of_undelimited free), ih restFits]
    rfl
  | rule selector body rest ih =>
    obtain ⟨free, bodyFree, bodyClosed, restFits⟩ := fits
    have closed := split?_body bodyFree bodyClosed rest.spell
    -- A block without further blocks is an at-rule or a rule, as its head says.
    cases opens : opensAt selector with
    | true =>
      rw [spell, readNodes_atBlock opens (endsPrelude_of_undelimited free) closed, ih restFits,
        hasNestedBlock_of_free bodyFree.not_mem]
      simp [nodes, ruleNode, opens]
    | false =>
      rw [spell, readNodes_rule opens free.braceFree.not_mem closed, ih restFits]
      simp [nodes, ruleNode, opens]
  | group prelude inner rest ihInner ihRest =>
    obtain ⟨free, opens, innerFits, innerSealed, restFits⟩ := fits
    have closed := split?_spell innerFits innerSealed rest.spell
    rw [spell, readNodes_atBlock opens (endsPrelude_of_undelimited free) closed, ihInner innerFits,
      ihRest restFits, hasNestedBlock_spell innerFits innerSealed]
    rfl

end Layout
end ThemeCss.Sheet
