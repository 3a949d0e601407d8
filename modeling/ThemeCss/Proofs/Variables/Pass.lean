import ThemeCss.Proofs.Sheet.Layout

/-!
# Passes over a layout

A pass reads the text of a sheet with a matcher that answers at innermost blocks only. Between them
the text stays character by character, whatever the pass is, so the fragments of a text are known
once it is known what the matcher makes of one innermost block.
-/
namespace ThemeCss.Sheet.Layout

open Scan Variables

/-- The selectors and the bodies of the blocks that have no further blocks. -/
def blocks : Layout → List (Text × Text)
  | .tail _ => []
  | .statement _ rest => rest.blocks
  | .rule selector body rest => (selector, body) :: rest.blocks
  | .group prelude inner rest =>
    (if inner.hasBlock then inner.blocks else [(prelude, inner.spell)]) ++ rest.blocks

/-- The bodies of the blocks that have no further blocks. -/
def bodies : Layout → List Text
  | .tail _ => []
  | .statement _ rest => rest.bodies
  | .rule _ body rest => body :: rest.bodies
  | .group _ inner rest =>
    (if inner.hasBlock then inner.bodies else [inner.spell]) ++ rest.bodies

/-- The text of a block with its selector. -/
def spellBlock (selector body : Text) : Text := selector ++ '{' :: (body ++ ['}'])

/-- What a pass reads in the text of a layout, given what it reads in an innermost block. -/
def cut {α : Type} (leaf : Text → Text → List (Text.Fragment α)) :
    Layout → List (Text.Fragment α)
  | .tail content => content.map .plain
  | .statement prelude rest => (prelude ++ [';']).map .plain ++ rest.cut leaf
  | .rule selector body rest => leaf selector body ++ rest.cut leaf
  | .group prelude inner rest =>
    (if inner.hasBlock then (prelude ++ ['{']).map .plain ++ (inner.cut leaf ++ [.plain '}'])
      else leaf prelude inner.spell) ++ rest.cut leaf

/-- In a group, a layout without a block is a tail. -/
theorem eq_tail_of_hasBlock_eq_false {layout : Layout} (parts : layout.Sealed)
    (plain : layout.hasBlock = false) : layout = .tail layout.spell := by
  cases layout with
  | tail content => rfl
  | statement prelude rest => exact parts.elim
  | rule selector body rest => simp [hasBlock] at plain
  | group prelude inner rest => simp [hasBlock] at plain

theorem braceFree_spell {layout : Layout} (fits : layout.Fits) (parts : layout.Sealed)
    (plain : layout.hasBlock = false) : BraceFree layout.spell := by
  rw [eq_tail_of_hasBlock_eq_false parts plain] at fits
  exact fits.1

/-- The first brace of a layout with a block opens it. -/
theorem nested_spell {layout : Layout} (fits : layout.Fits) (block : layout.hasBlock = true)
    (rest : Text) : Nested (layout.spell ++ rest) := by
  -- A statement only puts text without braces in front of the first brace.
  induction layout with
  | tail content => simp [hasBlock] at block
  | statement prelude next ih =>
    have free : BraceFree (prelude ++ [';']) :=
      fits.1.braceFree.append (by simp [BraceFree, isBrace])
    have whole := Nested.append free (ih fits.2.2 block)
    simpa [spell] using whole
  | rule selector body next ih =>
    have whole := nested_opener fits.1.braceFree (body ++ '}' :: (next.spell ++ rest))
    simpa [spell] using whole
  | group prelude inner next ihInner ihNext =>
    have whole := nested_opener fits.1.braceFree (inner.spell ++ '}' :: (next.spell ++ rest))
    simpa [spell] using whole

section pass

variable {α : Type} {matcher : Text.Matcher α} (passes : Passes matcher)
  {leaf : Text → Text → List (Text.Fragment α)}
include passes

/-- What a pass reads in the text of a layout is told block by block. -/
theorem fragments_spell {layout : Layout} (fits : layout.Fits)
    (reads : ∀ selector body, (selector, body) ∈ layout.blocks → Undelimited selector →
      BraceFree body → ∀ rest, Text.fragments matcher none (spellBlock selector body ++ rest)
        = leaf selector body ++ Text.fragments matcher none rest)
    {rest : Text} (ends : Ends rest) :
    Text.fragments matcher none (layout.spell ++ rest)
      = layout.cut leaf ++ Text.fragments matcher none rest := by
  -- The text behind is general, so that the induction reaches into a group, whose text ends at the
  -- closing brace.
  induction layout generalizing rest with
  | tail content => exact passes.fragments_tail fits.1 ends
  | statement prelude next ih =>
    have passed := passes.fragments_statement fits.1 (next.spell ++ rest)
    rw [ih fits.2.2 reads ends] at passed
    simpa [spell, cut] using passed
  | rule selector body next ih =>
    obtain ⟨free, bodyFree, _, nextFits⟩ := fits
    simp only [blocks, List.mem_cons] at reads
    have here := reads selector body (.inl rfl) free bodyFree (next.spell ++ rest)
    rw [ih nextFits (fun selector body member => reads selector body (.inr member)) ends] at here
    simpa [spell, spellBlock, cut] using here
  | group prelude inner next ihInner ihNext =>
    obtain ⟨free, _, innerFits, innerSealed, nextFits⟩ := fits
    simp only [blocks, List.mem_append] at reads
    have behind := ihNext nextFits (fun selector body member => reads selector body (.inr member))
      ends
    by_cases block : inner.hasBlock = true
    · rw [if_pos block] at reads
      -- The closing brace ends the text of the group for every search that starts in it.
      have opened := passes.fragments_opener free
        (nested_spell innerFits block ('}' :: (next.spell ++ rest)))
      rw [ihInner innerFits (fun selector body member => reads selector body (.inl member))
        (ends_closer _), passes.fragments_closer, behind] at opened
      simpa [spell, cut, block] using opened
    · rw [if_neg block] at reads
      have innerFree := braceFree_spell innerFits innerSealed (by simpa using block)
      have here := reads prelude inner.spell (.inl (by simp)) free innerFree (next.spell ++ rest)
      rw [behind] at here
      simpa [spell, spellBlock, cut, block] using here

theorem fragments_eq_cut {layout : Layout} (fits : layout.Fits)
    (reads : ∀ selector body, (selector, body) ∈ layout.blocks → Undelimited selector →
      BraceFree body → ∀ rest, Text.fragments matcher none (spellBlock selector body ++ rest)
        = leaf selector body ++ Text.fragments matcher none rest) :
    Text.fragments matcher none layout.spell = layout.cut leaf := by
  have read := fragments_spell passes fits reads ends_nil
  have nothing : Text.fragments matcher none [] = [] := by simp [Text.fragments]
  rwa [nothing, List.append_nil, List.append_nil] at read

end pass

/-! ### The blocks of a text -/

/-- A block is one hit of the search for blocks. -/
theorem fragments_block {selector body : Text} (free : Undelimited selector)
    (bodyFree : BraceFree body) (rest : Text) :
    Text.fragments blockMatcher none (spellBlock selector body ++ rest)
      = (selector.map .plain ++ [.hit body ('{' :: (body ++ ['}']))])
        ++ Text.fragments blockMatcher none rest := by
  have blind := passes_blockMatcher.blind
  -- No search for a block starts in the selector, which has no brace.
  have misses : ∀ suffix, suffix ≠ [] → suffix <:+ selector →
      blockMatcher none (suffix ++ ('{' :: (body ++ ['}']) ++ rest)) = none := by
    intro suffix ink tail
    obtain ⟨c, behind, rfl⟩ := List.exists_cons_of_ne_nil ink
    have other := (free.braceFree.curly_free c (tail.subset (List.mem_cons_self ..))).1
    exact blockMatcher_other other none _
  have hits : blockMatcher none ('{' :: (body ++ ['}']) ++ rest)
      = some (body, ('{' :: (body ++ ['}'])).length) := by
    have found := blockMatcher_body bodyFree none rest
    simpa using found
  rw [spellBlock, List.append_assoc, Text.fragments_append_of_none blind _ misses,
    Text.fragments_of_match blind rest (by simp) hits, List.append_assoc]
  rfl

theorem hitValues_cut (layout : Layout) :
    Text.hitValues (layout.cut fun selector body =>
        selector.map .plain ++ [.hit body ('{' :: (body ++ ['}']))])
      = layout.bodies := by
  induction layout with
  | tail content => simpa [cut, bodies, Text.hitValues] using Text.hitValues_map_plain content []
  | statement prelude rest ih => rw [cut, Text.hitValues_map_plain, ih, bodies]
  | rule selector body rest ih =>
    rw [cut, List.append_assoc, Text.hitValues_map_plain, List.singleton_append, Text.hitValues, ih,
      bodies]
  | group prelude inner rest ihInner ihRest =>
    rw [cut, bodies]
    split
    · rw [List.append_assoc, Text.hitValues_map_plain, Text.hitValues_append,
        Text.hitValues_append, ihInner, ihRest]
      simp [Text.hitValues]
    · rw [List.append_assoc, Text.hitValues_map_plain, List.singleton_append, Text.hitValues,
        ihRest]
      rfl

/-- The blocks found in the text of a layout are the innermost ones of the layout. -/
theorem blockBodies_spell {layout : Layout} (fits : layout.Fits) :
    blockBodies layout.spell = layout.bodies := by
  have read := fragments_eq_cut passes_blockMatcher fits
    fun _ _ _ free bodyFree => fragments_block free bodyFree
  have values : blockBodies layout.spell
      = Text.hitValues (Text.fragments blockMatcher none layout.spell) := Text.map_placedHits 0 _
  rw [values, read, hitValues_cut]

end ThemeCss.Sheet.Layout
