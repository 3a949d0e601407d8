import ThemeCss.Proofs.Variables.Collapse

/-!
# Pruned trees

Collapsing works from the inside out, one level of nesting a pass, until a pass changes nothing.
On trees the same is one recursion: a group goes when nothing is left of its children. The two agree
because a pass does not change what pruning makes of a tree, and a tree that no pass shortens is
pruned.
-/
namespace ThemeCss.Sheet

open Variables

mutual

/-- What is left of a node without the at-rules that are empty in the end. -/
def Node.pruned : Node → List Node
  | .rule selector declarations => [.rule selector declarations]
  | .statement prelude => [.statement prelude]
  | .group prelude children =>
    if (Node.prunedAll children).isEmpty then [] else [.group prelude (Node.prunedAll children)]
  | .block prelude body => if body.isEmpty then [] else [.block prelude body]

def Node.prunedAll : List Node → List Node
  | [] => []
  | node :: nodes => node.pruned ++ Node.prunedAll nodes

end

namespace Layout

/-- Nothing but blanks stands behind the last block. -/
def Bare : Layout → Prop
  | .tail content => Text.Blank content
  | .statement _ rest => rest.Bare
  | .rule _ _ rest => rest.Bare
  | .group _ inner rest => inner.Bare ∧ rest.Bare

/-- Every group has a block. -/
def Filled : Layout → Prop
  | .tail _ => True
  | .statement _ rest => rest.Filled
  | .rule _ _ rest => rest.Filled
  | .group _ inner rest => inner.hasBlock = true ∧ inner.Filled ∧ rest.Filled

theorem bare_pruneOnce {layout : Layout} (bare : layout.Bare) : layout.pruneOnce.Bare := by
  induction layout with
  | tail content => exact bare
  | statement prelude rest ih => exact ih bare
  | rule selector body rest ih => exact ih bare
  | group prelude inner rest ihInner ihRest =>
    rw [pruneOnce]
    split
    · exact ⟨ihInner bare.1, ihRest bare.2⟩
    · split
      · exact ihRest bare.2
      · exact ⟨bare.1, ihRest bare.2⟩

theorem bare_pad {blanks : Text} (blank : Text.Blank blanks) {layout : Layout}
    (bare : layout.Bare) : (layout.pad blanks).Bare := by
  cases layout with
  | tail content => exact blank.append bare
  | statement prelude rest => exact bare
  | rule selector body rest => exact bare
  | group prelude inner rest => exact bare

theorem bare_keepRule (selector body : Text) {rest : Layout} (bare : rest.Bare) :
    (keepRule selector body rest).Bare := by
  rw [keepRule]
  split
  · exact bare_pad (Text.blank_takeWhile selector) bare
  · exact bare

theorem bare_dropRules {layout : Layout} (bare : layout.Bare) : layout.dropRules.Bare := by
  induction layout with
  | tail content => exact bare
  | statement prelude rest ih => exact ih bare
  | rule selector body rest ih => exact bare_keepRule selector body (ih bare)
  | group prelude inner rest ihInner ihRest =>
    rw [dropRules]
    split
    · exact ⟨ihInner bare.1, ihRest bare.2⟩
    · exact bare_keepRule prelude inner.spell (ihRest bare.2)

/-- A bare layout without a block is blank and stands for no node. -/
theorem blank_of_bare {layout : Layout} (parts : layout.Sealed) (bare : layout.Bare)
    (plain : layout.hasBlock = false) : Text.Blank layout.spell ∧ layout.nodes = [] := by
  obtain ⟨content, rfl⟩ : ∃ content, layout = .tail content :=
    ⟨_, eq_tail_of_hasBlock_eq_false parts plain⟩
  have none : Text.trimLeft content = [] := Text.trimLeft_of_blank bare
  exact ⟨bare, by rw [nodes, tailNodes, if_pos none]⟩

theorem nodes_ne_nil {layout : Layout} (block : layout.hasBlock = true) : layout.nodes ≠ [] := by
  cases layout with
  | tail content => simp [hasBlock] at block
  | statement prelude rest => simp [nodes]
  | rule selector body rest => simp [nodes]
  | group prelude inner rest => simp [nodes]

/-- A group is pruned as its layout is, whether or not blocks are left in it. -/
theorem pruned_groupNode {inner : Layout} (parts : inner.Sealed) (bare : inner.Bare)
    (prelude : Text) :
    (groupNode prelude inner).pruned
      = if (Node.prunedAll inner.nodes).isEmpty then []
        else [.group (Text.trim prelude) (Node.prunedAll inner.nodes)] := by
  -- Both sides are the same only because a bare layout without a block is blank.
  cases block : inner.hasBlock with
  | true => rw [groupNode, if_pos block, Node.pruned]
  | false =>
    obtain ⟨blank, none⟩ := blank_of_bare parts bare block
    rw [groupNode, block, if_neg (by simp), Node.pruned, Text.trim_of_blank blank, none]
    rfl

/-- A pass does not change what pruning makes of the tree. -/
theorem prunedAll_pruneOnce {layout : Layout} (fits : layout.Fits) (bare : layout.Bare) :
    Node.prunedAll layout.pruneOnce.nodes = Node.prunedAll layout.nodes := by
  induction layout with
  | tail content => rfl
  | statement prelude rest ih => simp only [pruneOnce, nodes, Node.prunedAll, ih fits.2.2 bare]
  | rule selector body rest ih => simp only [pruneOnce, nodes, Node.prunedAll, ih fits.2.2.2 bare]
  | group prelude inner rest ihInner ihRest =>
    obtain ⟨free, opens, innerFits, innerSealed, restFits⟩ := fits
    rw [pruneOnce, nodes_group, Node.prunedAll, pruned_groupNode innerSealed bare.1]
    split
    next block =>
      rw [nodes_group, Node.prunedAll,
        pruned_groupNode (sealed_pruneOnce innerSealed) (bare_pruneOnce bare.1),
        ihInner innerFits bare.1, ihRest restFits bare.2]
    -- The pass removes the group here, and pruning would have removed it as well.
    next plain =>
      obtain ⟨blank, none⟩ := blank_of_bare innerSealed bare.1 (by simpa using plain)
      have all : inner.spell.all Text.isBlank = true := by simpa [Text.Blank] using blank
      rw [if_pos all, none, ihRest restFits bare.2]
      rfl

/-! ### Where passes end -/

theorem length_pruneOnce_le (layout : Layout) :
    layout.pruneOnce.spell.length ≤ layout.spell.length := by
  induction layout with
  | tail content => exact Nat.le_refl _
  | statement prelude rest ih => simpa [pruneOnce, spell] using ih
  | rule selector body rest ih => simpa [pruneOnce, spell] using ih
  | group prelude inner rest ihInner ihRest =>
    rw [pruneOnce]
    split
    · simp only [spell, List.length_append, List.length_cons]
      omega
    · split <;> simp only [spell, List.length_append, List.length_cons] <;> omega

/-- Where a pass does not shorten the text, every group has a block. -/
theorem filled_of_length {layout : Layout} (fits : layout.Fits) (bare : layout.Bare)
    (kept : layout.spell.length ≤ layout.pruneOnce.spell.length) : layout.Filled := by
  induction layout with
  | tail content => trivial
  | statement prelude rest ih =>
    refine ih fits.2.2 bare ?_
    simpa [pruneOnce, spell] using kept
  | rule selector body rest ih =>
    refine ih fits.2.2.2 bare ?_
    simpa [pruneOnce, spell] using kept
  | group prelude inner rest ihInner ihRest =>
    obtain ⟨free, opens, innerFits, innerSealed, restFits⟩ := fits
    have restShorter := length_pruneOnce_le rest
    have innerShorter := length_pruneOnce_le inner
    rw [pruneOnce] at kept
    split at kept
    -- Neither part can have grown, so neither has shrunk.
    next block =>
      simp only [spell, List.length_append, List.length_cons] at kept
      exact ⟨block, ihInner innerFits bare.1 (by omega), ihRest restFits bare.2 (by omega)⟩
    next plain =>
      obtain ⟨blank, _⟩ := blank_of_bare innerSealed bare.1 (by simpa using plain)
      have all : inner.spell.all Text.isBlank = true := by simpa [Text.Blank] using blank
      -- Removing a blank group would have shortened the text.
      rw [if_pos all] at kept
      simp only [spell, List.length_append, List.length_cons] at kept
      omega

/-- A filled layout without blank bodies is pruned. -/
theorem prunedAll_of_filled {layout : Layout} (standing : layout.Standing) (bare : layout.Bare)
    (filled : layout.Filled) : Node.prunedAll layout.nodes = layout.nodes := by
  obtain ⟨fits, inked⟩ := standing
  induction layout with
  | tail content =>
    have none : Text.trimLeft content = [] := Text.trimLeft_of_blank bare
    rw [nodes, tailNodes, if_pos none]
    rfl
  | statement prelude rest ih =>
    rw [nodes, Node.prunedAll, Node.pruned, ih bare filled fits.2.2 inked]
    rfl
  | rule selector body rest ih =>
    -- An at-rule with a body of ink stays, and a rule stays anyway.
    have ink : Text.trim body ≠ [] := fun none => inked.1 (Text.trim_eq_nil_iff.mp none)
    have own : (ruleNode selector body).pruned = [ruleNode selector body] := by
      rw [ruleNode]
      split
      · rw [Node.pruned, if_neg (by simpa using ink)]
      · rw [Node.pruned]
    rw [nodes, Node.prunedAll, own, ih bare filled fits.2.2.2 inked.2]
    rfl
  | group prelude inner rest ihInner ihRest =>
    obtain ⟨free, opens, innerFits, innerSealed, restFits⟩ := fits
    obtain ⟨block, innerFilled, restFilled⟩ := filled
    have some := nodes_ne_nil block
    rw [nodes_group, Node.prunedAll, pruned_groupNode innerSealed bare.1,
      ihInner bare.1 innerFilled innerFits inked.1, ihRest bare.2 restFilled restFits inked.2,
      if_neg (by simpa using some), groupNode, if_pos block]
    rfl

/-- Collapsing prunes the tree. -/
theorem nodes_collapsed {layout : Layout} (standing : layout.Standing) (bare : layout.Bare) :
    layout.collapsed.nodes = Node.prunedAll layout.nodes := by
  -- The passes keep three things: the layout stands, is bare, and prunes to the same tree.
  have kept : layout.collapsed.Standing ∧ layout.collapsed.Bare ∧
      Node.prunedAll layout.collapsed.nodes = Node.prunedAll layout.nodes :=
    collapsed_induction
      (P := fun other => other.Standing ∧ other.Bare ∧
        Node.prunedAll other.nodes = Node.prunedAll layout.nodes)
      (fun _ ⟨standing, bare, same⟩ => ⟨standing.pruneOnce, bare_pruneOnce bare,
        (prunedAll_pruneOnce standing.fits bare).trans same⟩)
      ⟨standing, bare, rfl⟩
  obtain ⟨still, empty, same⟩ := kept
  -- The last pass shortened nothing, so nothing is left to prune.
  have filled := filled_of_length still.fits empty
    (Nat.le_of_not_lt (length_pruneOnce_collapsed layout))
  rw [← same, prunedAll_of_filled still empty filled]

/-- A rule keeps what is read back of its regular declarations, or leaves nothing. -/
theorem prunedAll_keepRule {selector body : Text} (opens : opensAt selector = false)
    (contained : ∀ declaration ∈ kept body, declaration.Contained)
    (same : (kept body).flatMap Declaration.reread = kept body) (rest : Layout) :
    Node.prunedAll (keepRule selector body rest).nodes
      = if (kept body).isEmpty then Node.prunedAll rest.nodes
        else .rule (Text.trim selector) (kept body) :: Node.prunedAll rest.nodes := by
  -- Nothing kept leaves blanks only; what is kept is read back as it was written.
  by_cases nothing : kept body = []
  · rw [keepRule, if_pos nothing, nodes_pad (Text.blank_takeWhile selector), nothing]
    rfl
  · have some : (kept body).isEmpty = false := by simpa using nothing
    rw [keepRule, if_neg nothing, nodes, Node.prunedAll, ruleNode, opensAt_padded, opens,
      if_neg (by simp), trim_padded, parseAll_keptBody contained nothing, same, some]
    rfl

end Layout
end ThemeCss.Sheet
