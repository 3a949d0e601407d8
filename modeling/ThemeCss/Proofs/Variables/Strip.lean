import ThemeCss.Proofs.Sheet.Upright

/-!
# Dropping keeps what is regular

Dropping custom properties finds blocks by their braces, the reader by scanning strings. On a text
whose braces stand in code and whose tree holds none, both see the same blocks, and every regular
declaration of the sheet stays where it was. Elsewhere they part, and declarations get lost.
-/
namespace ThemeCss.Variables

open Scan Sheet

/-- Dropping custom properties keeps the regular declarations of a sheet, each with its selector and
its preludes, in order, and leaves nothing that cannot be read. -/
theorem placed_dropCustom {css : Text} (free : CommentFree css)
    (live : bracesLive .code css = true) (complete : (parse css).trailing = [])
    (upright : Node.AllUpright (parse css).nodes) :
    (parse (dropCustom css)).trailing = [] ∧
    Node.placedAll [] (parse (dropCustom css)).nodes = Node.placedAll [] (parse css).nodes := by
  rw [parse_of_commentFree free] at complete upright ⊢
  -- From here on the text is that of a layout, and both sides are told by its tree.
  obtain ⟨layout, rfl, fits, steady, _⟩ := hasLayout ⟨live, upright, .inl complete⟩
  have tidy := (Layout.commentFree_spell_iff.mp free).tidy
  rw [Layout.parse_dropCustom fits steady tidy, Layout.readNodes_spell fits]
  exact ⟨rfl, by rw [Layout.placed_collapsed (Layout.fits_dropRules fits steady),
    Layout.placed_dropRules fits steady]⟩

/-- A group with a rule that keeps a declaration, and a rule that keeps none. -/
def grouped : Layout :=
  .group "@a".toList (.rule "b".toList "--c:d;e:f".toList (.tail []))
    (.rule "g".toList "--h:i".toList (.tail []))

theorem placed_dropCustom_grouped :
    (parse (dropCustom grouped.spell)).trailing = [] ∧
    Node.placedAll [] (parse (dropCustom grouped.spell)).nodes
      = [⟨["@a".toList], "b".toList, { property := "e".toList, value := "f".toList }⟩] := by
  have kept := @placed_dropCustom grouped.spell (by decide) (by decide) (by decide +kernel)
    (by decide +kernel)
  exact ⟨kept.1, kept.2.trans (by decide +kernel)⟩

/-- Read to the end, but with other regular declarations once the custom ones are dropped. -/
def Misplaced (layout : Layout) : Prop :=
  (parse layout.spell).trailing = [] ∧
    Node.placedAll [] (parse (dropCustom layout.spell)).nodes
      ≠ Node.placedAll [] (parse layout.spell).nodes

instance (layout : Layout) : Decidable (Misplaced layout) := inferInstanceAs (Decidable (_ ∧ _))

/-- A brace in a string, in a comment or in a selector, a block in a rule, a semicolon between
rules, an open parenthesis, an open backslash, a second colon, and a statement in a group. -/
theorem placed_dropCustom_misplaced :
    Misplaced (.rule "a".toList r#"b:"}";--c:d"#.toList (.tail [])) ∧
    Misplaced (.rule "a".toList r"--b:/*}*/c;d:e".toList (.tail [])) ∧
    Misplaced (.rule r"}a".toList "--b:c".toList (.rule "d".toList "e:f".toList (.tail []))) ∧
    Misplaced (.group "a".toList (.rule "b".toList "--c:d".toList (.tail [])) (.tail [])) ∧
    Misplaced (.rule "a".toList "b:c".toList
      (.rule ";d".toList "--e:f".toList (.rule "g".toList "h:i".toList (.tail [])))) ∧
    Misplaced (.rule "a".toList "b:c;d:(".toList (.tail [])) ∧
    Misplaced (.rule "a".toList "b:\\ ;c:d".toList (.tail [])) ∧
    Misplaced (.rule "a".toList ":b:c".toList (.tail [])) ∧
    Misplaced (.group "@a".toList
      (.statement "@b c:d".toList (.rule "e".toList "--f:g".toList (.tail []))) (.tail [])) := by
  decide +kernel

end ThemeCss.Variables
