import ThemeCss.Proofs.Variables.Draft

/-!
# Drafts as layouts

The text of a draft is the text of a layout that fits and is steady, so it is read back as the tree
of the draft, and dropping the custom properties from the text drops them from the draft.
-/
namespace ThemeCss.Variables

open Scan Sheet

namespace Draft

/-- The parts that the draft is written as. -/
def layout : Draft → Layout
  | .done => .tail []
  | .statement prelude rest => .statement prelude rest.layout
  | .rule selector settings rest => .rule selector (Setting.body settings) rest.layout
  | .group prelude inner rest => .group prelude inner.layout rest.layout

theorem spell_layout (draft : Draft) : draft.layout.spell = Node.writeAll draft.nodes := by
  induction draft with
  | done => rfl
  | statement prelude rest ih => simp [layout, nodes, Layout.spell, Node.writeAll, Node.write, ih]
  | rule selector settings rest ih =>
    simp [layout, nodes, Layout.spell, Node.writeAll, Node.write, ih, Setting.body]
  | group prelude inner rest ihInner ihRest =>
    simp [layout, nodes, Layout.spell, Node.writeAll, Node.write, ihInner, ihRest]

theorem IsHead.undelimited {head : Text} (isHead : IsHead head) : Undelimited head := by
  intro c member
  have free := isHead.free c member
  simp only [List.mem_cons, List.not_mem_nil, or_false, not_or] at free
  simp [isDelimiter, isBrace, free]

theorem IsHead.closed {head : Text} (isHead : IsHead head) : Closed head := by
  apply closed_of_ordinary
  exact ordinary_of_avoids (isHead.free.of_subset (by decide))

theorem IsHead.trim_eq {head : Text} (isHead : IsHead head) : Text.trim head = head :=
  Text.trim_of_trimmed isHead.trimmed

/-! ### The layout fits -/

theorem sealed_layout {draft : Draft} (shaped : draft.Shaped) (blocks : draft.Blocks) :
    draft.layout.Sealed := by
  induction draft with
  | done => exact ⟨closed_nil, rfl⟩
  | statement prelude rest => exact blocks.elim
  | rule selector settings rest ih => exact ⟨shaped.1.closed, ih shaped.2.2 blocks⟩
  | group prelude inner rest _ ih =>
    obtain ⟨isHead, _, _, _, _, restShaped⟩ := shaped
    exact ⟨isHead.closed, ih restShaped blocks⟩

theorem hasBlock_layout {draft : Draft} (blocks : draft.Blocks) (some : draft ≠ .done) :
    draft.layout.hasBlock = true := by
  cases draft with
  | done => exact absurd rfl some
  | statement prelude rest => exact blocks.elim
  | rule selector settings rest => rfl
  | group prelude inner rest => rfl

theorem bare_layout (draft : Draft) : draft.layout.Bare := by
  induction draft with
  | done => exact Text.blank_nil
  | statement prelude rest ih => exact ih
  | rule selector settings rest ih => exact ih
  | group prelude inner rest ihInner ihRest => exact ⟨ihInner, ihRest⟩

/-- A rule keeps its regular declarations, or leaves nothing. -/
theorem prunedAll_keepRule {selector : Text} (isHead : IsHead selector)
    (opens : opensAt selector = false) {settings : List Setting}
    (wellFormed : ∀ setting ∈ settings, setting.WellFormed) (rest : Layout) :
    Node.prunedAll (Layout.keepRule selector (Setting.body settings) rest).nodes
      = if ((settings.filter (!·.isCustom)).map (·.declaration)).isEmpty then
          Node.prunedAll rest.nodes
        else .rule selector ((settings.filter (!·.isCustom)).map (·.declaration)) ::
          Node.prunedAll rest.nodes := by
  rw [Layout.prunedAll_keepRule opens
      (fun _ => Setting.contained_of_mem_kept wellFormed) (Setting.flatMap_reread_kept wellFormed),
    Setting.kept_body wellFormed, isHead.trim_eq]

section wellFormed

variable {draft : Draft} (shaped : draft.Shaped)
  (wellFormed : ∀ setting ∈ draft.settings, setting.WellFormed)
include shaped wellFormed

theorem fits_layout : draft.layout.Fits := by
  induction draft with
  | done => exact ⟨by simp [BraceFree], fun _ => by simp⟩
  | statement prelude rest ih =>
    exact ⟨shaped.1.undelimited, shaped.2.1, ih shaped.2.2 wellFormed⟩
  | rule selector settings rest ih =>
    simp only [Draft.settings, List.forall_mem_append] at wellFormed
    exact ⟨shaped.1.undelimited, Setting.braceFree_body wellFormed.1,
      Setting.closed_body wellFormed.1, ih shaped.2.2 wellFormed.2⟩
  | group prelude inner rest ihInner ihRest =>
    simp only [Draft.settings, List.forall_mem_append] at wellFormed
    obtain ⟨isHead, opens, _, blocks, innerShaped, restShaped⟩ := shaped
    exact ⟨isHead.undelimited, opens, ihInner innerShaped wellFormed.1,
      sealed_layout innerShaped blocks, ihRest restShaped wellFormed.2⟩

/-- The blocks of the text hold the declarations of the draft. -/
theorem flatMap_parseAll_bodies :
    draft.layout.bodies.flatMap Declaration.parseAll = draft.settings.map (·.declaration) := by
  induction draft with
  | done => rfl
  | statement prelude rest ih => exact ih shaped.2.2 wellFormed
  | rule selector settings rest ih =>
    simp only [Draft.settings, List.forall_mem_append] at wellFormed
    rw [layout, Layout.bodies, List.flatMap_cons, Setting.parseAll_body wellFormed.1,
      ih shaped.2.2 wellFormed.2, Draft.settings, List.map_append]
  | group prelude inner rest ihInner ihRest =>
    simp only [Draft.settings, List.forall_mem_append] at wellFormed
    obtain ⟨_, _, some, blocks, innerShaped, restShaped⟩ := shaped
    -- The group has a block inside, so its bodies are those of the draft inside.
    rw [layout, Layout.bodies, if_pos (hasBlock_layout blocks some), List.flatMap_append,
      ihInner innerShaped wellFormed.1, ihRest restShaped wellFormed.2, Draft.settings,
      List.map_append]

theorem steady_layout : draft.layout.Steady := by
  induction draft with
  | done => simp [Layout.Steady, layout, Layout.bodies]
  | statement prelude rest ih => exact ih shaped.2.2 wellFormed
  | rule selector settings rest ih =>
    simp only [Draft.settings, List.forall_mem_append] at wellFormed
    simp only [Layout.Steady, layout, Layout.bodies, List.forall_mem_cons]
    exact ⟨fun _ => Setting.contained_of_mem_kept wellFormed.1, ih shaped.2.2 wellFormed.2⟩
  | group prelude inner rest ihInner ihRest =>
    simp only [Draft.settings, List.forall_mem_append] at wellFormed
    obtain ⟨_, _, some, blocks, innerShaped, restShaped⟩ := shaped
    simp only [Layout.Steady, layout, Layout.bodies, if_pos (hasBlock_layout blocks some),
      List.forall_mem_append]
    exact ⟨ihInner innerShaped wellFormed.1, ihRest restShaped wellFormed.2⟩

/-- Nothing that is kept opens a comment if no regular value does. -/
theorem tidy_layout (clean : ∀ setting ∈ draft.settings,
    setting.isCustom = false → CommentFree setting.declaration.write) : draft.layout.Tidy := by
  induction draft with
  | done => rfl
  | statement prelude rest ih => exact ⟨shaped.1.commentFree, ih shaped.2.2 wellFormed clean⟩
  | rule selector settings rest ih =>
    simp only [Draft.settings, List.forall_mem_append] at wellFormed clean
    refine ⟨shaped.1.commentFree, ?_, ih shaped.2.2 wellFormed.2 clean.2⟩
    intro declaration member
    -- Custom properties are not kept, so their values may open comments.
    rw [Setting.kept_body wellFormed.1] at member
    obtain ⟨setting, listed, rfl⟩ := List.mem_map.mp member
    obtain ⟨stands, regular⟩ := List.mem_filter.mp listed
    exact clean.1 setting stands (by simpa using regular)
  | group prelude inner rest ihInner ihRest =>
    simp only [Draft.settings, List.forall_mem_append] at wellFormed clean
    obtain ⟨isHead, _, some, blocks, innerShaped, restShaped⟩ := shaped
    rw [layout, Layout.Tidy, if_pos (hasBlock_layout blocks some)]
    exact ⟨isHead.commentFree, ihInner innerShaped wellFormed.1 clean.1,
      ihRest restShaped wellFormed.2 clean.2⟩

/-! ### Dropping -/

theorem prunedAll_dropRules :
    Node.prunedAll draft.layout.dropRules.nodes = draft.regular := by
  induction draft with
  | done => rfl
  | statement prelude rest ih =>
    simp only [layout, Layout.dropRules, Layout.nodes, Node.prunedAll, Node.pruned,
      shaped.1.trim_eq, ih shaped.2.2 wellFormed, regular]
    rfl
  | rule selector settings rest ih =>
    simp only [Draft.settings, List.forall_mem_append] at wellFormed
    rw [layout, Layout.dropRules, prunedAll_keepRule shaped.1 shaped.2.1 wellFormed.1,
      ih shaped.2.2 wellFormed.2, regular]
  | group prelude inner rest ihInner ihRest =>
    simp only [Draft.settings, List.forall_mem_append] at wellFormed
    obtain ⟨isHead, _, some, blocks, innerShaped, restShaped⟩ := shaped
    -- The group may lose its blocks on the way; pruning sees the same in both cases.
    have innerSealed := Layout.sealed_dropRules (sealed_layout innerShaped blocks)
    have innerBare := Layout.bare_dropRules (bare_layout inner)
    rw [layout, Layout.dropRules, if_pos (hasBlock_layout blocks some), Layout.nodes_group,
      Node.prunedAll, Layout.pruned_groupNode innerSealed innerBare, isHead.trim_eq,
      ihInner innerShaped wellFormed.1, ihRest restShaped wellFormed.2, regular]
    split <;> rfl

end wellFormed

end Draft
end ThemeCss.Variables
