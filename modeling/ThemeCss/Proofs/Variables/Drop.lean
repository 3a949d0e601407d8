import ThemeCss.Proofs.Variables.Pass

/-!
# Dropping custom properties

The pass over the rules of a text is a pass over its layout. A rule keeps what is not custom, in a
body that is read as the kept declarations again, or leaves only the blanks before it; groups and
statements stay. The layout fits as before, if the written declarations leave nothing open.
-/
namespace ThemeCss.Sheet

open Scan Variables

/-- What a pass keeps of a body. -/
def kept (body : Text) : List Declaration := (Declaration.parseAll body).filter (!·.isCustom)

/-- The body of a rule that keeps something. -/
def keptBody (body : Text) : Text :=
  [' '] ++ (Text.join [';', ' '] ((kept body).map Declaration.write) ++ [';', ' '])

namespace Layout

/-- A rule without its custom properties, in front of the rest. -/
def keepRule (selector body : Text) (rest : Layout) : Layout :=
  let leading := selector.takeWhile Text.isBlank
  if kept body = [] then rest.pad leading
  else .rule (leading ++ Text.trim selector ++ [' ']) (keptBody body) rest

def dropRules : Layout → Layout
  | .tail content => .tail content
  | .statement prelude rest => .statement prelude rest.dropRules
  | .rule selector body rest => keepRule selector body rest.dropRules
  | .group prelude inner rest =>
    if inner.hasBlock then .group prelude inner.dropRules rest.dropRules
    else keepRule prelude inner.spell rest.dropRules

/-- The declarations that are not custom can be written into a block. -/
def Steady (layout : Layout) : Prop :=
  ∀ body ∈ layout.bodies, ∀ declaration ∈ kept body, declaration.Contained

/-! ### The pass on text -/

@[simp] theorem spell_pad (blanks : Text) (layout : Layout) :
    (layout.pad blanks).spell = blanks ++ layout.spell := by
  cases layout <;> simp [pad, spell]

theorem spell_keepRule (selector body : Text) (rest : Layout) :
    (keepRule selector body rest).spell = rewriteRule selector body ++ rest.spell := by
  simp only [keepRule, rewriteRule, List.isEmpty_iff]
  split
  next nothing => rw [kept] at nothing; rw [if_pos nothing, spell_pad]
  next some =>
    rw [kept] at some
    rw [if_neg some]
    simp [spell, keptBody, kept]

/-- A rule is one hit of the pass that drops declarations. -/
theorem fragments_rule {selector body : Text} (free : Undelimited selector)
    (bodyFree : BraceFree body) (rest : Text) :
    Text.fragments ruleMatcher none (spellBlock selector body ++ rest)
      = [.hit (selector, body) (spellBlock selector body)]
        ++ Text.fragments ruleMatcher none rest := by
  apply Text.fragments_of_match ruleMatcher_blind rest (by simp [spellBlock])
  have found := ruleMatcher_block free bodyFree none rest
  simpa [spellBlock] using found

theorem rewriteFragments_cut (layout : Layout) :
    Text.rewriteFragments (fun (selector, body) _ => rewriteRule selector body)
        (layout.cut fun selector body => [.hit (selector, body) (spellBlock selector body)])
      = layout.dropRules.spell := by
  induction layout with
  | tail content =>
    simpa [cut, dropRules, spell] using Text.rewriteFragments_map_plain _ content []
  | statement prelude rest ih =>
    rw [cut, Text.rewriteFragments_map_plain, ih]
    simp [dropRules, spell]
  | rule selector body rest ih =>
    rw [cut, List.singleton_append, Text.rewriteFragments_hit, ih, dropRules, spell_keepRule]
  | group prelude inner rest ihInner ihRest =>
    rw [cut, dropRules]
    split
    · rw [List.append_assoc, Text.rewriteFragments_map_plain, Text.rewriteFragments_append,
        Text.rewriteFragments_append, ihInner, ihRest]
      simp [spell]
    · rw [List.singleton_append, Text.rewriteFragments_hit, ihRest, spell_keepRule]

/-- Dropping in the text of a layout is dropping in the layout. -/
theorem dropDeclarations_spell {layout : Layout} (fits : layout.Fits) :
    dropDeclarations layout.spell = layout.dropRules.spell := by
  have read := fragments_eq_cut passes_ruleMatcher fits
    fun _ _ _ free bodyFree => fragments_rule free bodyFree
  rw [dropDeclarations, Text.rewrite, read, rewriteFragments_cut]

/-! ### The layout afterwards -/

theorem trim_padded (selector : Text) :
    Text.trim (selector.takeWhile Text.isBlank ++ Text.trim selector ++ [' '])
      = Text.trim selector := by
  have leading := Text.blank_takeWhile selector
  have last : Text.Blank [' '] := by decide
  rw [Text.trim_between leading last, Text.trim_trim]

theorem opensAt_padded (selector : Text) :
    opensAt (selector.takeWhile Text.isBlank ++ Text.trim selector ++ [' '])
      = opensAt selector := by
  rw [opensAt_eq, opensAt_eq, trim_padded]

theorem undelimited_padded {selector : Text} (free : Undelimited selector) :
    Undelimited (selector.takeWhile Text.isBlank ++ Text.trim selector ++ [' ']) := by
  have leading := undelimited_of_blank (Text.blank_takeWhile selector)
  have trimmed : Undelimited (Text.trim selector) :=
    fun c member => free c (Text.mem_of_mem_trim member)
  exact (leading.append trimmed).append (by simp [Undelimited, isDelimiter, isBrace])

/-- A blank behind a trimmed selector takes the backslash that its own blanks took. -/
theorem closed_padded {selector : Text} (closed : Closed selector) :
    Closed (selector.takeWhile Text.isBlank ++ Text.trim selector ++ [' ']) := by
  obtain ⟨before, after, left, right, parts⟩ := Text.exists_trim selector
  have leading := closed_of_blank (Text.blank_takeWhile selector)
  have sound := Mode.sound_code.after (Text.trim selector)
  have ends : (Mode.code.after (Text.trim selector)).after after = Mode.code := by
    rw [parts, List.append_assoc, closed_append_iff (closed_of_blank left)] at closed
    rwa [← Mode.after_append]
  -- The blank ends the scan where the blanks of the selector ended it: in code, nothing pending.
  have settled : (Mode.code.after (Text.trim selector)).after [' '] = Mode.code := by
    rw [sound.after_ordinary (List.all_eq_true.mp rfl) (by simp)]
    by_cases none : after = []
    · rw [none, Mode.after_nil] at ends
      rw [ends]
      rfl
    · rwa [sound.after_ordinary (fun c member => isOrdinary_of_blank (right c member)) none] at ends
  rw [List.append_assoc, closed_append_iff leading, Closed, Mode.after_append]
  exact settled

theorem fits_pad {blanks : Text} (blank : Text.Blank blanks) {layout : Layout}
    (fits : layout.Fits) : (layout.pad blanks).Fits := by
  have free := undelimited_of_blank blank
  cases layout with
  | tail content =>
    refine ⟨free.braceFree.append fits.1, ?_⟩
    intro opens member
    rw [opensAt_blank_append blank] at opens
    rcases List.mem_append.mp member with member | member
    · exact absurd (blank _ member) (by decide)
    · exact fits.2 opens member
  | statement prelude rest =>
    exact ⟨free.append fits.1, (opensAt_blank_append blank prelude).trans fits.2.1, fits.2.2⟩
  | rule selector body rest => exact ⟨free.append fits.1, fits.2⟩
  | group prelude inner rest =>
    exact ⟨free.append fits.1, (opensAt_blank_append blank prelude).trans fits.2.1, fits.2.2⟩

theorem sealed_pad {blanks : Text} (blank : Text.Blank blanks) {layout : Layout}
    (parts : layout.Sealed) : (layout.pad blanks).Sealed := by
  have closed := closed_of_blank blank
  cases layout with
  | tail content =>
    exact ⟨closed.append parts.1, (opensAt_blank_append blank content).trans parts.2⟩
  | statement prelude rest => exact parts.elim
  | rule selector body rest => exact ⟨closed.append parts.1, parts.2⟩
  | group prelude inner rest => exact ⟨closed.append parts.1, parts.2⟩

end Layout

/-! ### The kept body -/

section keptBody

variable {body : Text}

theorem exists_of_mem_kept {declaration : Declaration} (member : declaration ∈ kept body) :
    ∃ chunk, chunk <:+: body ∧ solid 0 .code chunk = true ∧ declaration = .parse chunk := by
  rw [kept, List.mem_filter] at member
  exact Declaration.exists_of_mem_parseAll member.1

theorem braceFree_write {declaration : Declaration} (free : BraceFree body)
    (member : declaration ∈ kept body) : BraceFree declaration.write := by
  obtain ⟨chunk, inside, _, rfl⟩ := exists_of_mem_kept member
  intro c written
  -- Every character is one of the body or one that writing puts in.
  rcases Declaration.mem_write written with named | valued | marked
  · exact free c (inside.subset ((Declaration.property_inside chunk).subset named))
  · exact free c (inside.subset ((Declaration.value_inside chunk).subset valued))
  · have every : BraceFree (':' :: Declaration.mark) := by decide
    exact every c marked

/-- The last semicolon of a kept body is ink. -/
theorem not_blank_keptBody (body : Text) : ¬Text.Blank (keptBody body) := by
  intro blank
  have semicolon := blank ';' (by simp [keptBody])
  exact absurd semicolon (by decide)

theorem braceFree_keptBody (free : BraceFree body) : BraceFree (keptBody body) := by
  have glue : BraceFree [';', ' '] := by decide
  have joined : BraceFree (Text.join [';', ' '] ((kept body).map Declaration.write)) :=
    glue.join (by simpa using fun declaration => braceFree_write free)
  exact BraceFree.append (by decide) (joined.append glue)

variable (contained : ∀ declaration ∈ kept body, declaration.Contained)
include contained

theorem closed_keptBody : Closed (keptBody body) := by
  have glue : Closed [';', ' '] := by decide
  have joined : Closed (Text.join [';', ' '] ((kept body).map Declaration.write)) :=
    glue.join (by simpa using fun declaration member => (contained declaration member).closed)
  exact Closed.append (by decide) (joined.append glue)

theorem whole_write_of_mem {declaration : Declaration} (member : declaration ∈ kept body) :
    Whole declaration.write := by
  have leaves := contained declaration member
  obtain ⟨chunk, _, uncut, rfl⟩ := exists_of_mem_kept member
  exact Declaration.whole_write uncut leaves

theorem parseAll_keptBody (some : kept body ≠ []) :
    Declaration.parseAll (keptBody body) = (kept body).flatMap Declaration.reread := by
  have blank : Text.Blank [' '] := by decide
  rw [keptBody, Declaration.parseAll_blank_append blank,
    Declaration.parseAll_join_append blank some fun _ => whole_write_of_mem contained]

end keptBody

namespace Layout

theorem steady_rule {selector body : Text} {rest : Layout}
    (steady : (Layout.rule selector body rest).Steady) :
    (∀ declaration ∈ kept body, declaration.Contained) ∧ rest.Steady := by
  simpa [Steady, bodies] using steady

theorem steady_group {prelude : Text} {inner rest : Layout}
    (steady : (Layout.group prelude inner rest).Steady) :
    (if inner.hasBlock then inner.Steady
      else ∀ declaration ∈ kept inner.spell, declaration.Contained) ∧ rest.Steady := by
  simp only [Steady, bodies, List.forall_mem_append] at steady
  refine ⟨?_, steady.2⟩
  split
  next block =>
    rw [if_pos block] at steady
    exact steady.1
  next plain => simpa [plain] using steady.1

theorem fits_keepRule {selector body : Text} {rest : Layout} (free : Undelimited selector)
    (bodyFree : BraceFree body) (contained : ∀ declaration ∈ kept body, declaration.Contained)
    (restFits : rest.Fits) : (keepRule selector body rest).Fits := by
  rw [keepRule]
  split
  · exact fits_pad (Text.blank_takeWhile selector) restFits
  · exact ⟨undelimited_padded free, braceFree_keptBody bodyFree, closed_keptBody contained,
      restFits⟩

theorem sealed_keepRule {selector body : Text} {rest : Layout} (closed : Closed selector)
    (parts : rest.Sealed) : (keepRule selector body rest).Sealed := by
  rw [keepRule]
  split
  · exact sealed_pad (Text.blank_takeWhile selector) parts
  · exact ⟨closed_padded closed, parts⟩

theorem sealed_dropRules {layout : Layout} (parts : layout.Sealed) : layout.dropRules.Sealed := by
  induction layout with
  | tail content => exact parts
  | statement prelude rest => exact parts.elim
  | rule selector body rest ih => exact sealed_keepRule parts.1 (ih parts.2)
  | group prelude inner rest _ ih =>
    rw [dropRules]
    split
    · exact ⟨parts.1, ih parts.2⟩
    · exact sealed_keepRule parts.1 (ih parts.2)

/-- Dropping leaves a layout that fits. -/
theorem fits_dropRules {layout : Layout} (fits : layout.Fits) (steady : layout.Steady) :
    layout.dropRules.Fits := by
  induction layout with
  | tail content => exact fits
  | statement prelude rest ih => exact ⟨fits.1, fits.2.1, ih fits.2.2 steady⟩
  | rule selector body rest ih =>
    obtain ⟨free, bodyFree, _, restFits⟩ := fits
    obtain ⟨contained, restSteady⟩ := steady_rule steady
    exact fits_keepRule free bodyFree contained (ih restFits restSteady)
  | group prelude inner rest ihInner ihRest =>
    obtain ⟨free, opens, innerFits, innerSealed, restFits⟩ := fits
    obtain ⟨innerSteady, restSteady⟩ := steady_group steady
    rw [dropRules]
    -- A group without blocks is rewritten like a rule, its text being the body.
    split
    next block =>
      rw [if_pos block] at innerSteady
      exact ⟨free, opens, ihInner innerFits innerSteady, sealed_dropRules innerSealed,
        ihRest restFits restSteady⟩
    next plain =>
      rw [if_neg plain] at innerSteady
      exact fits_keepRule free (braceFree_spell innerFits innerSealed (by simpa using plain))
        innerSteady (ihRest restFits restSteady)

end Layout
end ThemeCss.Sheet
