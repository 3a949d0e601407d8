import ThemeCss.Proofs.Sheet.Placed

/-!
# Collapsing empty at-rules

A pass removes every at-rule whose block is blank, with the blanks before it, and leaves the rest of
the layout. Passes go on while they shorten the text. What holds of a layout and is kept by a pass
holds of the collapsed layout, so nothing is said of the passes one by one.
-/
namespace ThemeCss.Sheet.Layout

open Scan Variables

/-- No rule has a blank body. -/
def Inked : Layout → Prop
  | .tail _ => True
  | .statement _ rest => rest.Inked
  | .rule _ body rest => ¬Text.Blank body ∧ rest.Inked
  | .group _ inner rest => inner.Inked ∧ rest.Inked

def pruneOnce : Layout → Layout
  | .tail content => .tail content
  | .statement prelude rest => .statement prelude rest.pruneOnce
  | .rule selector body rest => .rule selector body rest.pruneOnce
  | .group prelude inner rest =>
    if inner.hasBlock then .group prelude inner.pruneOnce rest.pruneOnce
    else if inner.spell.all Text.isBlank then rest.pruneOnce
    else .group prelude inner rest.pruneOnce

/-- Passes over the layout while they shorten its text. -/
def collapsed (layout : Layout) : Layout :=
  let next := layout.pruneOnce
  if next.spell.length < layout.spell.length then next.collapsed else layout
termination_by layout.spell.length

/-- What a pass keeps, collapsing keeps. -/
theorem collapsed_induction {P : Layout → Prop} (step : ∀ layout, P layout → P layout.pruneOnce)
    {layout : Layout} (start : P layout) : P layout.collapsed := by
  fun_induction collapsed layout with
  | case1 layout next _ ih => exact ih (step layout start)
  | case2 layout next _ => exact start

/-- No pass shortens a collapsed layout. -/
theorem length_pruneOnce_collapsed (layout : Layout) :
    ¬layout.collapsed.pruneOnce.spell.length < layout.collapsed.spell.length := by
  fun_induction collapsed layout with
  | case1 layout next _ ih => exact ih
  | case2 layout next longer => exact longer

/-! ### A pass on text -/

/-- What a pass reads in an innermost block: an empty at-rule, or nothing. -/
def emptyAtRule (prelude body : Text) : List (Text.Fragment Unit) :=
  if body.all Text.isBlank then [.hit () (spellBlock prelude body)]
  else (spellBlock prelude body).map .plain

/-- A block that is not blank stays as it is. -/
theorem fragments_ink {selector body : Text} (free : Undelimited selector)
    (bodyFree : BraceFree body) (ink : ¬Text.Blank body) (rest : Text) :
    Text.fragments emptyAtRuleMatcher none (spellBlock selector body ++ rest)
      = (spellBlock selector body).map .plain
        ++ Text.fragments emptyAtRuleMatcher none rest := by
  have passes := passes_emptyAtRuleMatcher
  -- No search matches from inside the selector either, for the body stays the same ink.
  have opened : Text.fragments emptyAtRuleMatcher none (selector ++ '{' :: (body ++ '}' :: rest))
      = (selector ++ ['{']).map .plain
        ++ Text.fragments emptyAtRuleMatcher none (body ++ '}' :: rest) := by
    apply Text.fragments_concat_of_none passes.blind
    intro before starts
    exact emptyAtRuleMatcher_ink (fun c member => free c (starts.subset member)) bodyFree ink
  rw [passes.fragments_tail bodyFree (ends_closer rest), passes.fragments_closer] at opened
  simpa [spellBlock] using opened

/-- An at-rule with a blank body is a hit. -/
theorem fragments_blank {prelude body : Text} (free : Undelimited prelude)
    (opens : opensAt prelude = true) (blank : Text.Blank body) (rest : Text) :
    Text.fragments emptyAtRuleMatcher none (spellBlock prelude body ++ rest)
      = [.hit () (spellBlock prelude body)] ++ Text.fragments emptyAtRuleMatcher none rest := by
  obtain ⟨behind, start⟩ := exists_of_opensAt opens
  apply Text.fragments_of_match passes_emptyAtRuleMatcher.blind rest (by simp [spellBlock])
  have found := emptyAtRuleMatcher_blank free start blank none rest
  simpa [spellBlock] using found

/-- A blank block of a layout is that of an at-rule. -/
theorem opensAt_of_mem_blocks {layout : Layout} (fits : layout.Fits) (inked : layout.Inked)
    {selector body : Text} (member : (selector, body) ∈ layout.blocks) (blank : Text.Blank body) :
    opensAt selector = true := by
  induction layout with
  | tail content => simp [blocks] at member
  | statement prelude rest ih => exact ih fits.2.2 inked member
  | rule other inside rest ih =>
    rcases List.mem_cons.mp member with same | later
    · obtain ⟨rfl, rfl⟩ := Prod.mk.inj same
      -- A rule with a blank body is ruled out, so the blank block is a group.
      exact absurd blank inked.1
    · exact ih fits.2.2.2 inked.2 later
  | group prelude inner rest ihInner ihRest =>
    obtain ⟨_, opens, innerFits, _, restFits⟩ := fits
    rcases List.mem_append.mp member with here | later
    · split at here
      · exact ihInner innerFits inked.1 here
      · obtain ⟨rfl, rfl⟩ := Prod.mk.inj (List.mem_singleton.mp here)
        exact opens
    · exact ihRest restFits inked.2 later

theorem rewriteFragments_cut_emptyAtRule {layout : Layout} (inked : layout.Inked) :
    Text.rewriteFragments (fun _ _ => []) (layout.cut emptyAtRule) = layout.pruneOnce.spell := by
  induction layout with
  | tail content =>
    simpa [cut, pruneOnce, spell] using Text.rewriteFragments_map_plain _ content []
  | statement prelude rest ih =>
    rw [cut, Text.rewriteFragments_map_plain, ih inked]
    simp [pruneOnce, spell]
  | rule selector body rest ih =>
    have ink : ¬body.all Text.isBlank = true := by simpa [Text.Blank] using inked.1
    rw [cut, emptyAtRule, if_neg ink, Text.rewriteFragments_map_plain, ih inked.2]
    simp [pruneOnce, spell, spellBlock]
  | group prelude inner rest ihInner ihRest =>
    rw [cut, pruneOnce]
    split
    · rw [List.append_assoc, Text.rewriteFragments_map_plain, Text.rewriteFragments_append,
        Text.rewriteFragments_append, ihInner inked.1, ihRest inked.2]
      simp [spell]
    · rw [emptyAtRule]
      split
      · rw [List.singleton_append, Text.rewriteFragments_hit, ihRest inked.2]
        rfl
      · rw [Text.rewriteFragments_map_plain, ihRest inked.2]
        simp [spell, spellBlock]

/-- A pass over the text of a layout is a pass over the layout. -/
theorem dropEmptyAtRules_spell {layout : Layout} (fits : layout.Fits) (inked : layout.Inked) :
    dropEmptyAtRules layout.spell = layout.pruneOnce.spell := by
  have reads : ∀ selector body, (selector, body) ∈ layout.blocks → Undelimited selector →
      BraceFree body → ∀ rest,
        Text.fragments emptyAtRuleMatcher none (spellBlock selector body ++ rest)
          = emptyAtRule selector body ++ Text.fragments emptyAtRuleMatcher none rest := by
    intro selector body member free bodyFree rest
    rw [emptyAtRule]
    by_cases blank : Text.Blank body
    · have all : body.all Text.isBlank = true := by simpa [Text.Blank] using blank
      rw [if_pos all, fragments_blank free (opensAt_of_mem_blocks fits inked member blank) blank]
    · have ink : ¬body.all Text.isBlank = true := by simpa [Text.Blank] using blank
      rw [if_neg ink, fragments_ink free bodyFree blank]
  rw [dropEmptyAtRules, Text.rewrite, fragments_eq_cut passes_emptyAtRuleMatcher fits reads,
    rewriteFragments_cut_emptyAtRule inked]

/-! ### The layout afterwards -/

theorem inked_pad (blanks : Text) {layout : Layout} (inked : layout.Inked) :
    (layout.pad blanks).Inked := by
  cases layout <;> exact inked

theorem inked_keepRule {selector body : Text} {rest : Layout} (inked : rest.Inked) :
    (keepRule selector body rest).Inked := by
  rw [keepRule]
  split
  · exact inked_pad _ inked
  · exact ⟨not_blank_keptBody body, inked⟩

/-- Every rule that is left has a declaration. -/
theorem inked_dropRules (layout : Layout) : layout.dropRules.Inked := by
  induction layout with
  | tail content => trivial
  | statement prelude rest ih => exact ih
  | rule selector body rest ih => exact inked_keepRule ih
  | group prelude inner rest ihInner ihRest =>
    rw [dropRules]
    split
    · exact ⟨ihInner, ihRest⟩
    · exact inked_keepRule ihRest

theorem inked_pruneOnce {layout : Layout} (inked : layout.Inked) : layout.pruneOnce.Inked := by
  induction layout with
  | tail content => trivial
  | statement prelude rest ih => exact ih inked
  | rule selector body rest ih => exact ⟨inked.1, ih inked.2⟩
  | group prelude inner rest ihInner ihRest =>
    rw [pruneOnce]
    split
    · exact ⟨ihInner inked.1, ihRest inked.2⟩
    · split
      · exact ihRest inked.2
      · exact ⟨inked.1, ihRest inked.2⟩

theorem sealed_pruneOnce {layout : Layout} (parts : layout.Sealed) : layout.pruneOnce.Sealed := by
  induction layout with
  | tail content => exact parts
  | statement prelude rest => exact parts.elim
  | rule selector body rest ih => exact ⟨parts.1, ih parts.2⟩
  | group prelude inner rest _ ih =>
    rw [pruneOnce]
    split
    · exact ⟨parts.1, ih parts.2⟩
    · split
      · exact ih parts.2
      · exact ⟨parts.1, ih parts.2⟩

theorem fits_pruneOnce {layout : Layout} (fits : layout.Fits) : layout.pruneOnce.Fits := by
  induction layout with
  | tail content => exact fits
  | statement prelude rest ih => exact ⟨fits.1, fits.2.1, ih fits.2.2⟩
  | rule selector body rest ih =>
    obtain ⟨free, bodyFree, bodyClosed, restFits⟩ := fits
    exact ⟨free, bodyFree, bodyClosed, ih restFits⟩
  | group prelude inner rest ihInner ihRest =>
    obtain ⟨free, opens, innerFits, innerSealed, restFits⟩ := fits
    rw [pruneOnce]
    split
    · exact ⟨free, opens, ihInner innerFits, sealed_pruneOnce innerSealed, ihRest restFits⟩
    · split
      · exact ihRest restFits
      · exact ⟨free, opens, innerFits, innerSealed, ihRest restFits⟩

/-- A pass removes no regular declaration. -/
theorem placed_pruneOnce {layout : Layout} (fits : layout.Fits) (preludes : List Text) :
    Node.placedAll preludes layout.pruneOnce.nodes = Node.placedAll preludes layout.nodes := by
  induction layout generalizing preludes with
  | tail content => rfl
  | statement prelude rest ih => simp only [pruneOnce, nodes, Node.placedAll, ih fits.2.2]
  | rule selector body rest ih => simp only [pruneOnce, nodes, Node.placedAll, ih fits.2.2.2]
  | group prelude inner rest ihInner ihRest =>
    obtain ⟨free, opens, innerFits, innerSealed, restFits⟩ := fits
    rw [pruneOnce, nodes_group, Node.placedAll]
    split
    next block =>
      rw [nodes_group, Node.placedAll, placed_groupNode (sealed_pruneOnce innerSealed),
        placed_groupNode innerSealed, ihInner innerFits, ihRest restFits]
    next plain =>
      split
      next blank =>
        -- A blank group places nothing, so it can go.
        have nothing : Text.Blank inner.spell := by simpa [Text.Blank] using blank
        have unplaced : (groupNode prelude inner).placed preludes = [] := by
          rw [groupNode, if_neg plain, Node.placed, Declaration.parseAll_trim,
            Declaration.parseAll_of_blank nothing]
          rfl
        rw [unplaced, List.nil_append, ihRest restFits]
      next => rw [nodes_group, Node.placedAll, ihRest restFits]

theorem placed_collapsed {layout : Layout} (fits : layout.Fits) (preludes : List Text) :
    Node.placedAll preludes layout.collapsed.nodes = Node.placedAll preludes layout.nodes := by
  have kept : layout.collapsed.Fits ∧
      Node.placedAll preludes layout.collapsed.nodes = Node.placedAll preludes layout.nodes :=
    collapsed_induction
      (P := fun other => other.Fits ∧
        Node.placedAll preludes other.nodes = Node.placedAll preludes layout.nodes)
      (fun _ ⟨fits, same⟩ => ⟨fits_pruneOnce fits, (placed_pruneOnce fits preludes).trans same⟩)
      ⟨fits, rfl⟩
  exact kept.2

/-- What passes keep of a layout that fits. -/
structure Standing (layout : Layout) : Prop where
  fits : layout.Fits
  inked : layout.Inked

theorem Standing.pruneOnce {layout : Layout} (standing : layout.Standing) :
    layout.pruneOnce.Standing :=
  ⟨fits_pruneOnce standing.fits, inked_pruneOnce standing.inked⟩

theorem standing_dropRules {layout : Layout} (fits : layout.Fits) (steady : layout.Steady) :
    layout.dropRules.Standing :=
  ⟨fits_dropRules fits steady, inked_dropRules layout⟩

/-- Collapsing the text of a layout is collapsing the layout. -/
theorem collapse_spell {layout : Layout} (standing : layout.Standing) :
    collapse layout.spell = layout.collapsed.spell := by
  fun_induction collapsed layout with
  | case1 layout next shorter ih =>
    rw [collapse, dropEmptyAtRules_spell standing.fits standing.inked]
    exact (if_pos shorter).trans (ih standing.pruneOnce)
  | case2 layout next longer =>
    rw [collapse, dropEmptyAtRules_spell standing.fits standing.inked]
    exact if_neg longer

/-- Dropping custom properties from the text of a layout drops them from the layout. -/
theorem dropCustom_spell {layout : Layout} (fits : layout.Fits) (steady : layout.Steady) :
    dropCustom layout.spell = layout.dropRules.collapsed.spell := by
  rw [dropCustom, dropDeclarations_spell fits, collapse_spell (standing_dropRules fits steady)]

end ThemeCss.Sheet.Layout
