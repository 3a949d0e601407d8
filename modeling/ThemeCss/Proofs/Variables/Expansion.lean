import Mathlib
import ThemeCss.Proofs.Variables.Written

/-!
# Expansion of drafts

The text of a whole draft is a template, with the values standing in it, so resolving the text
substitutes every value at once. What comes out is the text of the substituted draft, and dropping
the custom properties from it ends where the tree-level definition does.
-/
namespace ThemeCss.Variables

open Scan Sheet

namespace Template

/-- The templates with semicolons between them. -/
def joined (parts : List Template) : Template := List.intercalate [.text [';']] parts

theorem render_joined (parts : List Template) :
    render (joined parts) = Text.join [';'] (parts.map render) :=
  Text.map_intercalate rfl render_append parts

theorem substitute_joined (definitions : Entries Text Template) (resolving : List Text)
    (parts : List Template) :
    substitute definitions resolving (joined parts)
      = joined (parts.map (substitute definitions resolving)) := by
  have glue : substitute definitions resolving [.text [';']] = [.text [';']] :=
    substitute_of_plain rfl resolving
  rw [joined, Text.map_intercalate (substitute_of_plain rfl resolving)
    (substitute_append definitions resolving), glue, joined]

theorem proper_joined {parts : List Template} (each : ∀ part ∈ parts, Proper part) :
    Proper (joined parts) := by
  have glue : Proper [.text [';']] := .text (by decide) .nil
  exact Text.intercalate_induction .nil (fun _ _ => Proper.append) glue each

end Template

open Template

namespace Setting

/-- The declaration as it is written, with its value standing in it. -/
def template (setting : Setting) : Template :=
  .text (setting.property ++ [':', ' ']) ::
    (setting.value ++ if setting.important then [.text Declaration.mark] else [])

theorem render_template {setting : Setting}
    (wellFormed : setting.declaration.isMalformed = false) :
    render setting.template = setting.declaration.write := by
  rw [Declaration.write_of_wellFormed wellFormed]
  cases important : setting.important <;> simp [template, declaration, important]

theorem plain_property {property : Text} (inert : ∀ c ∈ property, isInert c = true) :
    Plain (property ++ [':', ' ']) := by
  have unspelled : spellsReference property = false :=
    spellsReference_of_free fun member => absurd (inert _ member) (by decide)
  -- The colon keeps the property apart from a call that the value may start with.
  have colon : Plain (property ++ [':']) :=
    plain_of_unspelled (by decide) (by decide) (whole_of_inert inert).closed unspelled
  have blank : Plain [' '] := by decide
  simpa using colon.append blank

theorem proper_template {setting : Setting} (inert : ∀ c ∈ setting.property, isInert c = true)
    (proper : Proper setting.value) : Proper setting.template := by
  have marked : Proper (if setting.important then [.text Declaration.mark] else []) := by
    split
    · exact .text (by decide) .nil
    · exact .nil
  exact .text (plain_property inert) (proper.append marked)

theorem substitute_template (definitions : Entries Text Template) (setting : Setting) :
    Template.substitute definitions [] setting.template
      = (setting.substitute definitions).template := by
  -- The mark is text, which substitution leaves.
  have marked : Template.substitute definitions []
      (if setting.important then [.text Declaration.mark] else [])
        = if setting.important then [.text Declaration.mark] else [] := by
    apply substitute_of_plain
    split <;> rfl
  rw [template, substitute_text, substitute_append, marked]
  rfl

end Setting

namespace Draft

/-- The whole sheet as it is written, with its values standing in it. -/
def template : Draft → Template
  | .done => []
  | .statement prelude rest => .text (prelude ++ [';']) :: rest.template
  | .rule selector settings rest =>
    .text (selector ++ ['{']) ::
      (joined (settings.map (·.template)) ++ .text ['}'] :: rest.template)
  | .group prelude inner rest =>
    .text (prelude ++ ['{']) :: (inner.template ++ .text ['}'] :: rest.template)

/-- Substituting in the text of the sheet substitutes in its values. -/
theorem substitute_template (definitions : Entries Text Template) (draft : Draft) :
    Template.substitute definitions [] draft.template
      = (draft.substitute definitions).template := by
  induction draft with
  | done => exact substitute_of_plain rfl []
  | statement prelude rest ih => rw [template, substitute_text, ih, substitute, template]
  | rule selector settings rest ih =>
    rw [template, substitute_text, substitute_append, substitute_text, substitute_joined, ih,
      substitute, template, List.map_map, List.map_map]
    simp only [Function.comp_def, Setting.substitute_template]
  | group prelude inner rest ihInner ihRest =>
    rw [template, substitute_text, substitute_append, substitute_text, ihInner, ihRest, substitute,
      template]

theorem IsHead.plain {head : Text} (isHead : IsHead head) {c : Char}
    (apart : Text.breaks callWord c = true) (ordinary : isOrdinary c = true) :
    Plain (head ++ [c]) :=
  plain_of_unspelled apart ordinary isHead.closed isHead.unspelled

theorem exists_of_mem_definitions {draft : Draft} {entry : Text × Template}
    (member : entry ∈ draft.definitions) :
    ∃ setting ∈ draft.settings, entry = (setting.property, setting.value) := by
  obtain ⟨setting, listed, rfl⟩ := List.mem_map.mp (Entries.mem_of_mem_ofList member)
  exact ⟨setting, (List.mem_filter.mp listed).1, rfl⟩

theorem proper_of_mem_definitions {draft : Draft}
    (wellFormed : ∀ setting ∈ draft.settings, setting.WellFormed) :
    ∀ entry ∈ draft.definitions, Proper entry.2 := by
  intro entry member
  obtain ⟨setting, listed, rfl⟩ := exists_of_mem_definitions member
  exact (wellFormed setting listed).proper

theorem mem_template {draft : Draft} {setting : Setting} (listed : setting ∈ draft.settings)
    {part : Part} (member : part ∈ setting.value) : part ∈ draft.template := by
  induction draft with
  | done => simp [settings] at listed
  | statement prelude rest ih => exact List.mem_cons_of_mem _ (ih listed)
  | rule selector settings rest ih =>
    apply List.mem_cons_of_mem
    rcases List.mem_append.mp listed with here | later
    · have written : part ∈ setting.template :=
        List.mem_cons_of_mem _ (List.mem_append_left _ member)
      exact List.mem_append_left _ 
        (Text.mem_intercalate (List.mem_map_of_mem here) written)
    · exact List.mem_append_right _ (List.mem_cons_of_mem _ (ih later))
  | group prelude inner rest ihInner ihRest =>
    apply List.mem_cons_of_mem
    rcases List.mem_append.mp listed with here | later
    · exact List.mem_append_left _ (ihInner here)
    · exact List.mem_append_right _ (List.mem_cons_of_mem _ (ihRest later))

section wellFormed

variable {draft : Draft} (shaped : draft.Shaped)
  (wellFormed : ∀ setting ∈ draft.settings, setting.WellFormed)
include shaped wellFormed

theorem render_template : render draft.template = Node.writeAll draft.nodes := by
  induction draft with
  | done => rfl
  | statement prelude rest ih =>
    simp [template, nodes, Node.writeAll, Node.write, ih shaped.2.2 wellFormed]
  | rule selector settings rest ih =>
    simp only [Draft.settings, List.forall_mem_append] at wellFormed
    have written : settings.map (render ∘ Setting.template)
        = settings.map (Declaration.write ∘ Setting.declaration) :=
      List.map_congr_left fun setting member =>
        Setting.render_template (wellFormed.1 setting member).readable.wellFormed
    simp [template, nodes, Node.writeAll, Node.write, ih shaped.2.2 wellFormed.2, render_joined,
      Declaration.writeAll, written]
  | group prelude inner rest ihInner ihRest =>
    simp only [Draft.settings, List.forall_mem_append] at wellFormed
    obtain ⟨_, _, _, _, innerShaped, restShaped⟩ := shaped
    simp [template, nodes, Node.writeAll, Node.write, ihInner innerShaped wellFormed.1,
      ihRest restShaped wellFormed.2]

theorem proper_template : Proper draft.template := by
  have closer : Plain ['}'] := by decide
  induction draft with
  | done => exact .nil
  | statement prelude rest ih =>
    exact .text (shaped.1.plain (by decide) (by decide)) (ih shaped.2.2 wellFormed)
  | rule selector settings rest ih =>
    simp only [Draft.settings, List.forall_mem_append] at wellFormed
    have inside : Proper (joined (settings.map (·.template))) :=
      proper_joined (by simpa using fun setting member =>
        have own := wellFormed.1 setting member
        Setting.proper_template own.inert_property own.proper)
    exact .text (shaped.1.plain (by decide) (by decide))
      (inside.append (.text closer (ih shaped.2.2 wellFormed.2)))
  | group prelude inner rest ihInner ihRest =>
    simp only [Draft.settings, List.forall_mem_append] at wellFormed
    obtain ⟨isHead, _, _, _, innerShaped, restShaped⟩ := shaped
    exact .text (isHead.plain (by decide) (by decide))
      ((ihInner innerShaped wellFormed.1).append (.text closer (ihRest restShaped wellFormed.2)))

/-! ### What is collected from the text -/

theorem customDeclarations_writeAll : customDeclarations (Node.writeAll draft.nodes)
    = (draft.settings.filter (·.isCustom)).map (·.declaration) := by
  rw [customDeclarations, ← spell_layout, Layout.blockBodies_spell (fits_layout shaped wellFormed),
    ← List.filter_flatMap,
    flatMap_parseAll_bodies shaped wellFormed, List.filter_map]
  rfl

theorem definitions_writeAll : Variables.definitions (Node.writeAll draft.nodes)
    = renderAll draft.definitions := by
  -- Expansion skips declarations without a value, and a draft has none.
  have valued : ∀ declaration ∈ (draft.settings.filter (·.isCustom)).map (·.declaration),
      (!declaration.value.isEmpty) = true := by
    intro declaration member
    obtain ⟨setting, listed, rfl⟩ := List.mem_map.mp member
    have value := (wellFormed setting (List.mem_filter.mp listed).1).valued
    simpa [Setting.declaration] using value
  rw [Variables.definitions, customDeclarations_writeAll shaped wellFormed,
    List.filter_eq_self.mpr valued, definitions, renderAll_ofList, List.map_map, List.map_map]
  rfl

/-- Both phases of resolving put the substituted draft in place of the draft. -/
theorem resolve_writeAll (settled : Settled draft.definitions) :
    resolve (resolveAll (Variables.definitions (Node.writeAll draft.nodes))) []
        (Node.writeAll draft.nodes)
      = render (draft.substitute draft.definitions).template := by
  have found := definitions_writeAll shaped wellFormed
  rw [← render_template shaped wellFormed] at found ⊢
  -- First the definitions among themselves, then the whole text with the resolved ones.
  rw [resolve_resolveAll (proper_of_mem_definitions wellFormed) (proper_template shaped wellFormed)
    found, substitute_resolved settled, substitute_template]

theorem spellsReference_writeAll
    (reference : ∃ setting ∈ draft.settings, setting.value.holdsReference = true) :
    spellsReference (Node.writeAll draft.nodes) = true := by
  obtain ⟨setting, listed, held⟩ := reference
  obtain ⟨part, member, called⟩ := List.any_eq_true.mp held
  have whole : draft.template.holdsReference = true :=
    List.any_eq_true.mpr ⟨part, mem_template listed member, called⟩
  rw [← hasReference_render (proper_template shaped wellFormed),
    render_template shaped wellFormed] at whole
  exact spellsReference_of_hasReference whole

theorem commentFree_writeAll
    (clean : ∀ setting ∈ draft.settings, CommentFree (render setting.value)) :
    CommentFree (Node.writeAll draft.nodes) := by
  rw [← spell_layout, Layout.commentFree_spell_iff]
  induction draft with
  | done => rfl
  | statement prelude rest ih => exact ⟨shaped.1.commentFree, ih shaped.2.2 wellFormed clean⟩
  | rule selector settings rest ih =>
    simp only [Draft.settings, List.forall_mem_append] at wellFormed clean
    refine ⟨shaped.1.commentFree, ?_, ih shaped.2.2 wellFormed.2 clean.2⟩
    refine CommentFree.join Text.blank_nil ?_
    simpa using fun setting member =>
      (wellFormed.1 setting member).commentFree_write (clean.1 setting member)
  | group prelude inner rest ihInner ihRest =>
    simp only [Draft.settings, List.forall_mem_append] at wellFormed clean
    obtain ⟨isHead, _, _, _, innerShaped, restShaped⟩ := shaped
    exact ⟨isHead.commentFree, ihInner innerShaped wellFormed.1 clean.1,
      ihRest restShaped wellFormed.2 clean.2⟩

end wellFormed

/-! ### The substituted draft -/

theorem settings_substitute (definitions : Entries Text Template) (draft : Draft) :
    (draft.substitute definitions).settings
      = draft.settings.map (·.substitute definitions) := by
  induction draft with
  | done => rfl
  | statement prelude rest ih => exact ih
  | rule selector settings rest ih => simp [substitute, Draft.settings, ih]
  | group prelude inner rest ihInner ihRest => simp [substitute, Draft.settings, ihInner, ihRest]

theorem blocks_substitute {definitions : Entries Text Template} {draft : Draft}
    (blocks : draft.Blocks) : (draft.substitute definitions).Blocks := by
  induction draft with
  | done => trivial
  | statement prelude rest => exact blocks.elim
  | rule selector settings rest ih => exact ih blocks
  | group prelude inner rest _ ih => exact ih blocks

theorem shaped_substitute {definitions : Entries Text Template} {draft : Draft}
    (shaped : draft.Shaped) : (draft.substitute definitions).Shaped := by
  induction draft with
  | done => trivial
  | statement prelude rest ih => exact ⟨shaped.1, shaped.2.1, ih shaped.2.2⟩
  | rule selector settings rest ih => exact ⟨shaped.1, shaped.2.1, ih shaped.2.2⟩
  | group prelude inner rest ihInner ihRest =>
    obtain ⟨isHead, opens, some, blocks, innerShaped, restShaped⟩ := shaped
    have still : inner.substitute definitions ≠ .done := by
      cases inner with
      | done => exact absurd rfl some
      | statement prelude next => simp [substitute]
      | rule selector settings next => simp [substitute]
      | group prelude inside next => simp [substitute]
    exact ⟨isHead, opens, still, blocks_substitute blocks, ihInner innerShaped, ihRest restShaped⟩

/-- Substituting keeps a declaration well-formed, unless it brings a semicolon into the open. -/
theorem wellFormed_substitute {draft : Draft}
    (wellFormed : ∀ setting ∈ draft.settings, setting.WellFormed) {setting : Setting}
    (listed : setting ∈ draft.settings)
    (uncut : solid 0 .code (render (setting.substitute draft.definitions).value) = true) :
    (setting.substitute draft.definitions).WellFormed := by
  have own := wellFormed setting listed
  have defined := proper_of_mem_definitions wellFormed
  have values : ∀ entry ∈ draft.definitions, IsValue (render entry.2) := by
    intro entry member
    obtain ⟨source, stands, rfl⟩ := exists_of_mem_definitions member
    exact (wellFormed source stands).value
  refine ⟨own.named, own.trimmed, own.free, own.commentFree, proper_substitute defined own.proper,
    isValue_substitute defined values [] own.proper own.value, ?_, uncut⟩
  -- Braces and exclamation marks can come from the values of the draft only.
  intro c member
  rcases mem_of_mem_substitute member with written | ⟨entry, stands, written⟩
  · exact own.bare c written
  · obtain ⟨source, named, rfl⟩ := exists_of_mem_definitions stands
    exact (wellFormed source named).bare c written

/-- What the text of a sheet must have for its expansion to be read off the tree. -/
structure Expandable (draft : Draft) : Prop where
  shaped : draft.Shaped
  wellFormed : ∀ setting ∈ draft.settings, setting.WellFormed
  clean : ∀ setting ∈ draft.settings, CommentFree (render setting.value)
  custom : ∃ setting ∈ draft.settings, setting.isCustom = true
  reference : ∃ setting ∈ draft.settings, setting.value.holdsReference = true
  settled : Settled draft.definitions

/-- Expanding comes down to dropping the custom properties from the text of the substituted
draft. -/
theorem expand_writeAll {draft : Draft} (expandable : draft.Expandable) {text : Text}
    (resolved : render (draft.substitute draft.definitions).template = text)
    (some : customDeclarations text ≠ []) :
    expand (Node.writeAll draft.nodes) = dropCustom text := by
  obtain ⟨shaped, wellFormed, clean, _, reference, settled⟩ := expandable
  have declares : (customDeclarations text).isEmpty = false := by simpa using some
  rw [expand_of_spelled (spellsReference_writeAll shaped wellFormed reference),
    Comment.strip_of_openerFree (commentFree_writeAll shaped wellFormed clean), flatten,
    resolve_writeAll shaped wellFormed settled, resolved, declares, if_neg (by simp)]

/-- Reading the expanded text of a sheet gives the sheet with its values substituted and without its
custom properties, as long as substitution brings no semicolon of a fallback into the open and puts
no comment together. -/
theorem parse_expand_writeAll {draft : Draft} (expandable : draft.Expandable)
    (uncut : ∀ setting ∈ draft.settings,
      solid 0 .code (render (setting.substitute draft.definitions).value) = true)
    (apart : ∀ setting ∈ draft.settings, setting.isCustom = false →
      CommentFree (render (setting.substitute draft.definitions).value)) :
    parse (expand (Node.writeAll draft.nodes))
      = { nodes := (draft.substitute draft.definitions).regular, trailing := [] } := by
  have wellFormed := expandable.wellFormed
  have still := @shaped_substitute draft.definitions _ expandable.shaped
  -- Substitution keeps the draft a draft, so its text can be read and passed over like the first.
  have each : ∀ setting ∈ (draft.substitute draft.definitions).settings, setting.WellFormed := by
    rw [settings_substitute, List.forall_mem_map]
    exact fun setting listed => wellFormed_substitute wellFormed listed (uncut setting listed)
  have kept : ∀ setting ∈ (draft.substitute draft.definitions).settings,
      setting.isCustom = false → CommentFree setting.declaration.write := by
    intro setting listed regular
    have written := (each setting listed).commentFree_write
    rw [settings_substitute] at listed
    obtain ⟨source, stands, rfl⟩ := List.mem_map.mp listed
    exact written (apart source stands regular)
  -- Some custom property is still declared, or expansion would not drop any.
  have some : customDeclarations
      (Node.writeAll (draft.substitute draft.definitions).nodes) ≠ [] := by
    obtain ⟨setting, listed, named⟩ := expandable.custom
    rw [customDeclarations_writeAll still each, settings_substitute]
    have stands : setting.substitute draft.definitions ∈
        (draft.settings.map (·.substitute draft.definitions)).filter (·.isCustom) :=
      List.mem_filter.mpr ⟨List.mem_map_of_mem listed, named⟩
    simpa using List.ne_nil_of_mem stands
  have fits := fits_layout still each
  have steady := steady_layout still each
  -- Dropping on text is dropping and pruning on the layout, as `regular` is on the draft.
  rw [expand_writeAll expandable (render_template still each) some, ← spell_layout,
    Layout.parse_dropCustom fits steady (tidy_layout still each kept),
    Layout.nodes_collapsed (Layout.standing_dropRules fits steady)
      (Layout.bare_dropRules (bare_layout _)), prunedAll_dropRules still each]

/-- A group whose rule refers to a definition and to a missing one, and a rule that only defines. -/
def printed : Draft :=
  .group "@media print".toList
    (.rule "p".toList
      [{ property := "--a".toList, value := [.text "1px".toList] },
        { property := "margin".toList,
          value := [.reference "--a".toList [], .text [' '],
            .reference "--b".toList [.text "red".toList]],
          important := true }]
      .done)
    (.rule "q".toList [{ property := "--c".toList, value := [.reference "--a".toList []] }] .done)

theorem parse_expand_printed :
    parse (expand (Node.writeAll printed.nodes))
      = { nodes := [.group "@media print".toList [.rule "p".toList
            [{ property := "margin".toList, value := "1px red".toList, important := true }]]],
          trailing := [] } := by
  have expandable : printed.Expandable :=
    ⟨by decide, by decide, by decide, by decide, by decide, of_decide_eq_true (by cbv)⟩
  have whole := parse_expand_writeAll expandable (of_decide_eq_true (by cbv))
    (of_decide_eq_true (by cbv))
  exact whole.trans (by cbv)

/-- A fallback with a semicolon, which a reference to it lets out. -/
def surfacing : Draft :=
  .rule "s".toList
    [{ property := "--a".toList, value := [.reference "--u".toList [.text "x;b: 2".toList]] },
      { property := ['c'], value := [.text ['d']] }]
    .done

/-- A slash before a reference to a star. -/
def meeting : Draft :=
  .rule "s".toList
    [{ property := "--a".toList, value := [.text ['*']] },
      { property := ['b'], value := [.text ['/'], .reference "--a".toList []] },
      { property := ['c'], value := [.text ['*', '/']] }]
    .done

/-- What the text of the substituted draft is read as, where this is not what the draft means. -/
theorem parse_expand_ne {draft : Draft} (expandable : draft.Expandable) {text written : Text}
    (resolved : render (draft.substitute draft.definitions).template = text)
    (regular : Node.writeAll (draft.substitute draft.definitions).regular = written)
    (some : customDeclarations text ≠ []) (other : (parse (dropCustom text)).write ≠ written) :
    parse (expand (Node.writeAll draft.nodes))
      ≠ { nodes := (draft.substitute draft.definitions).regular, trailing := [] } := by
  intro same
  apply other
  rw [← expand_writeAll expandable resolved some, same, Sheet.write, regular, List.append_nil]

theorem parse_expand_surfacing :
    (surfacing.Expandable ∧ parse (expand (Node.writeAll surfacing.nodes))
      ≠ { nodes := (surfacing.substitute surfacing.definitions).regular, trailing := [] }) ∧
    (meeting.Expandable ∧ parse (expand (Node.writeAll meeting.nodes))
      ≠ { nodes := (meeting.substitute meeting.definitions).regular, trailing := [] }) := by
  have first : surfacing.Expandable :=
    ⟨by decide, by decide, by decide, by decide, by decide, of_decide_eq_true (by cbv)⟩
  have second : meeting.Expandable :=
    ⟨by decide, by decide, by decide, by decide, by decide, of_decide_eq_true (by cbv)⟩
  have firstText : render (surfacing.substitute surfacing.definitions).template
      = r"s{--a: x;b: 2;c: d}".toList := by cbv
  have secondText : render (meeting.substitute meeting.definitions).template
      = r"s{--a: *;b: /*;c: */}".toList := by cbv
  have firstMeant : Node.writeAll (surfacing.substitute surfacing.definitions).regular
      = r"s{c: d}".toList := by cbv
  have secondMeant : Node.writeAll (meeting.substitute meeting.definitions).regular
      = r"s{b: /*;c: */}".toList := by cbv
  exact ⟨⟨first,
      parse_expand_ne first firstText firstMeant (by decide +kernel) (by decide +kernel)⟩,
    ⟨second,
      parse_expand_ne second secondText secondMeant (by decide +kernel) (by decide +kernel)⟩⟩

end Draft
end ThemeCss.Variables
