import ThemeCss.Proofs.Sheet.Loose
import ThemeCss.Proofs.Variables.Written

/-!
# Sheets of one rule

The declarations of a rule are read as they were written, up to blanks and importance marks. When
the custom properties are dropped from a sheet of one rule, the rule is left with the others, or
nothing is left.
-/
namespace ThemeCss.Sheet

open Scan Variables

namespace Declaration

/-- A declaration that is written in one piece, with no brace in it. -/
structure Entire (declaration : Declaration) : Prop where
  loose : Loose declaration
  trimmed : Text.Trimmed declaration.value
  inert : ∀ c ∈ declaration.property, isInert c = true
  whole : Whole declaration.value
  braceFree : Variables.BraceFree declaration.write

theorem Entire.whole_write {declaration : Declaration} (entire : Entire declaration) :
    Whole declaration.write :=
  whole_write_of_value entire.loose entire.inert
    (whole_value_append entire.whole declaration.important)

theorem Entire.whole_asRead {declaration : Declaration} (entire : Entire declaration)
    (valued : (asRead declaration).value ≠ []) : Whole (asRead declaration).write := by
  have some : declaration.value ≠ [] := by
    intro none
    exact entire.loose.valued (by rw [none]; rfl)
  exact @whole_write_change id (fun _ _ _ => rfl) declaration entire.trimmed entire.trimmed
    entire.loose some valued entire.inert entire.whole

theorem Loose.readable {declaration : Declaration} (loose : Loose declaration)
    (valued : (asRead declaration).value ≠ []) : Readable (asRead declaration) := by
  have named : (asRead declaration).property ≠ [] := by simpa using loose.named
  have wellFormed : (asRead declaration).isMalformed = false :=
    isMalformed_eq_false.mpr ⟨named, valued⟩
  rw [← parse_write_of_loose loose] at wellFormed ⊢
  exact readable_parse wellFormed

end Declaration

section entire

open Declaration

variable {declarations : List Declaration}
  (entire : ∀ declaration ∈ declarations, Entire declaration)
include entire

theorem parseAll_writeAll_of_entire :
    parseAll (writeAll declarations) = declarations.map asRead := by
  rw [writeAll, parseAll_join Text.blank_nil fun declaration member =>
    (entire declaration member).whole_write]
  exact flatMap_reread_of_loose fun declaration member => (entire declaration member).loose

theorem kept_writeAll :
    kept (writeAll declarations) = (declarations.map asRead).filter (!·.isCustom) := by
  rw [kept, parseAll_writeAll_of_entire entire]

variable (valued : ∀ declaration ∈ declarations,
  (asRead declaration).isCustom = false → (asRead declaration).value ≠ [])
include valued

theorem exists_of_mem_kept_writeAll {declaration : Declaration}
    (member : declaration ∈ kept (writeAll declarations)) :
    ∃ source ∈ declarations, Entire source ∧ asRead source = declaration ∧
      declaration.isCustom = false ∧ declaration.value ≠ [] := by
  rw [kept_writeAll entire, List.mem_filter, List.mem_map] at member
  obtain ⟨⟨source, listed, rfl⟩, regular⟩ := member
  have regular : (asRead source).isCustom = false := by simpa using regular
  exact ⟨source, listed, entire source listed, rfl, regular, valued source listed regular⟩

theorem flatMap_reread_kept_writeAll :
    (kept (writeAll declarations)).flatMap reread = kept (writeAll declarations) := by
  apply flatMap_reread_of_readable
  intro declaration member
  obtain ⟨source, _, own, rfl, _, some⟩ := exists_of_mem_kept_writeAll entire valued member
  exact own.loose.readable some

theorem contained_of_mem_kept_writeAll {declaration : Declaration}
    (member : declaration ∈ kept (writeAll declarations)) : declaration.Contained := by
  obtain ⟨source, _, own, rfl, _, some⟩ := exists_of_mem_kept_writeAll entire valued member
  have whole := own.whole_asRead some
  exact ⟨.inl (own.loose.readable some).named, whole.level, whole.closed⟩

end entire

/-- A sheet of one rule. -/
def single (selector : Text) (declarations : List Declaration) : Layout :=
  .rule selector (Declaration.writeAll declarations) (.tail [])

/-- The rule, if anything is declared in it. -/
def ruleOf (selector : Text) (declarations : List Declaration) : List Node :=
  if declarations.isEmpty then [] else [.rule selector declarations]

section single

variable {selector : Text} {declarations : List Declaration}
  (entire : ∀ declaration ∈ declarations, declaration.Entire)
include entire

theorem fits_single (isHead : Draft.IsHead selector) : (single selector declarations).Fits := by
  have braceFree : BraceFree (Declaration.writeAll declarations) :=
    BraceFree.join (by decide)
      (by simpa using fun declaration member => (entire declaration member).braceFree)
  have closed : Closed (Declaration.writeAll declarations) :=
    Closed.join (by decide)
      (by simpa using fun declaration member => (entire declaration member).whole_write.closed)
  exact ⟨isHead.undelimited, braceFree, closed, by simp [BraceFree], fun _ => by simp⟩

theorem customDeclarations_single (isHead : Draft.IsHead selector) :
    customDeclarations (single selector declarations).spell
      = (declarations.map Declaration.asRead).filter (·.isCustom) := by
  rw [customDeclarations, Layout.blockBodies_spell (fits_single entire isHead), single,
    Layout.bodies, Layout.bodies, List.flatMap_singleton, parseAll_writeAll_of_entire entire]

/-- What is read of a sheet of one rule once its custom properties are dropped. -/
theorem parse_dropCustom_single (isHead : Draft.IsHead selector) (opens : opensAt selector = false)
    (some : declarations ≠ [])
    (valued : ∀ declaration ∈ declarations, declaration.asRead.isCustom = false →
      declaration.asRead.value ≠ [])
    (clean : ∀ declaration ∈ declarations, declaration.asRead.isCustom = false →
      CommentFree declaration.write) :
    let css := (single selector declarations).spell
    parse (if (customDeclarations css).isEmpty then css else dropCustom css)
      = { nodes := ruleOf selector
            ((declarations.map Declaration.asRead).filter (!·.isCustom)), trailing := [] } := by
  intro css
  have fits := fits_single entire isHead
  rw [customDeclarations_single entire isHead]
  split
  -- No custom property: the sheet is read as it stands.
  next none =>
    have regular : ∀ declaration ∈ declarations, declaration.asRead.isCustom = false := by
      simpa using none
    have every : (declarations.map Declaration.asRead).filter (!·.isCustom)
        = declarations.map Declaration.asRead := List.filter_eq_self.mpr (by simpa using regular)
    have free : CommentFree css := by
      refine Layout.commentFree_spell_iff.mpr ⟨isHead.commentFree, ?_, rfl⟩
      refine CommentFree.join Text.blank_nil ?_
      simpa using fun declaration member => clean declaration member (regular declaration member)
    rw [parse_of_commentFree free, Layout.readNodes_spell fits, every]
    simp [single, Layout.nodes, Layout.ruleNode, Layout.tailNodes, Text.trimLeft, opens,
      isHead.trim_eq, parseAll_writeAll_of_entire entire, ruleOf, some]
  next =>
    have contained := fun declaration =>
      @contained_of_mem_kept_writeAll _ entire valued declaration
    have steady : (single selector declarations).Steady := by
      simpa [single, Layout.Steady, Layout.bodies] using contained
    have tidy : (single selector declarations).Tidy := by
      refine ⟨isHead.commentFree, ?_, rfl⟩
      intro declaration member
      obtain ⟨source, listed, own, rfl, regular, _⟩ :=
        exists_of_mem_kept_writeAll entire valued member
      have free := clean source listed regular
      rw [← Declaration.parse_write_of_loose own.loose]
      exact Declaration.holds_opener_write
        (free.of_part (Declaration.property_inside source.write))
        (free.of_part (Declaration.value_inside source.write))
    have bare : (single selector declarations).Bare := Text.blank_nil
    rw [Layout.parse_dropCustom fits steady tidy,
      Layout.nodes_collapsed (Layout.standing_dropRules fits steady) (Layout.bare_dropRules bare)]
    rw [single, Layout.dropRules, Layout.prunedAll_keepRule opens contained
      (flatMap_reread_kept_writeAll entire valued), isHead.trim_eq, kept_writeAll entire]
    rfl

end single
end ThemeCss.Sheet
