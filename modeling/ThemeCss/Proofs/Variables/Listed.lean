import ThemeCss.Proofs.Text.Lowercase
import ThemeCss.Proofs.Variables.Expansion
import ThemeCss.Proofs.Variables.Leftover
import ThemeCss.Proofs.Variables.Single

/-!
# Lists of settings

Here names may have blanks around them and values may end in an importance mark, cycles and missing
names included. A sheet of one such list defines what is read of its custom properties, and those
are templates again if nothing is left open where a mark is taken off. So replacing references in
the text of the sheet replaces them value by value, and each declaration is left in one piece as
long as no semicolon of a fallback comes into the open.
-/
namespace ThemeCss.Variables

open Scan Sheet Template

namespace Setting

/-- Whether the name is read as that of a custom property. -/
def isDefinition (setting : Setting) : Bool :=
  Declaration.isCustomName (Text.trim setting.property)

/-- What can stand in a list of declarations. Only names of custom properties keep their case. -/
structure Listed (setting : Setting) : Prop where
  free : Text.Avoids [':', ';', '{', '}', '(', ')', '\'', '"', '\\'] setting.property
  lower : setting.isDefinition = false →
    Text.lower setting.property = setting.property
  proper : Proper setting.value
  value : IsValue (render setting.value)
  bare : Text.Avoids ['{', '}'] (render setting.value)
  clean : CommentFree (render setting.value)
  uncut : solid 0 .code (render setting.value) = true

instance (setting : Setting) : Decidable setting.Listed :=
  decidable_of_iff
    (Text.Avoids [':', ';', '{', '}', '(', ')', '\'', '"', '\\'] setting.property ∧
      (setting.isDefinition = false →
        Text.lower setting.property = setting.property) ∧
      Proper setting.value ∧ IsValue (render setting.value) ∧
      Text.Avoids ['{', '}'] (render setting.value) ∧ CommentFree (render setting.value) ∧
      solid 0 .code (render setting.value) = true)
    ⟨fun ⟨free, lower, proper, value, bare, clean, uncut⟩ =>
        ⟨free, lower, proper, value, bare, clean, uncut⟩,
      fun ⟨free, lower, proper, value, bare, clean, uncut⟩ =>
        ⟨free, lower, proper, value, bare, clean, uncut⟩⟩

/-- The declaration with its references replaced. -/
def expanded (scope : Definitions) (setting : Setting) : Declaration :=
  { setting.declaration with value := resolve scope [] (render setting.value) }

/-- What a declaration must keep when its mark is taken off, and when this value is all that is left
of it once its references are replaced. -/
structure Keeps (value : Text) (setting : Setting) : Prop where
  named : Text.trim setting.property ≠ []
  commentFree : CommentFree setting.property
  definition : setting.isDefinition = true →
    Closed setting.declaration.asRead.value ∧
      endsInCallHead setting.declaration.asRead.value = false
  uncut : solid 0 .code value = true
  clean : setting.isDefinition = false → CommentFree value
  valued : setting.isDefinition = false →
    Declaration.value (Declaration.asRead { setting.declaration with value }) ≠ []

instance (value : Text) (setting : Setting) : Decidable (setting.Keeps value) :=
  decidable_of_iff
    (Text.trim setting.property ≠ [] ∧ CommentFree setting.property ∧
      (setting.isDefinition = true → Closed setting.declaration.asRead.value ∧
        endsInCallHead setting.declaration.asRead.value = false) ∧
      solid 0 .code value = true ∧ (setting.isDefinition = false → CommentFree value) ∧
      (setting.isDefinition = false →
        Declaration.value (Declaration.asRead { setting.declaration with value }) ≠ []))
    ⟨fun ⟨named, commentFree, definition, uncut, clean, valued⟩ =>
        ⟨named, commentFree, definition, uncut, clean, valued⟩,
      fun ⟨named, commentFree, definition, uncut, clean, valued⟩ =>
        ⟨named, commentFree, definition, uncut, clean, valued⟩⟩

/-- The list as the only rule of a sheet. -/
def sheet (settings : List Setting) : Text := 's' :: '{' :: (body settings ++ ['}'])

/-- What the custom properties of the list come to. -/
def scope (settings : List Setting) : Definitions := resolveAll (definitions (sheet settings))

theorem sheet_eq_spell (settings : List Setting) :
    sheet settings = (single ['s'] (settings.map (·.declaration))).spell := rfl

theorem isHead_s : Draft.IsHead ['s'] := by decide

@[simp] theorem isCustom_asRead (setting : Setting) :
    setting.declaration.asRead.isCustom = setting.isDefinition :=
  Declaration.isCustom_asRead setting.declaration

@[simp] theorem isCustom_expanded (scope : Definitions) (setting : Setting) :
    (setting.expanded scope).asRead.isCustom = setting.isDefinition :=
  Declaration.isCustom_asRead (setting.expanded scope)

/-! ### One setting -/

section setting

variable {setting : Setting} (listed : setting.Listed)
include listed

theorem Listed.inert : ∀ c ∈ setting.property, isInert c = true :=
  inert_of_avoids (listed.free.of_subset (by decide))

/-- With a value of this kind the setting is written in one piece. -/
theorem Listed.entire (named : Text.trim setting.property ≠ []) {value : Text}
    (isValue : IsValue value) (closed : Closed value) (uncut : solid 0 .code value = true)
    (braceFree : BraceFree value) :
    Declaration.Entire { setting.declaration with value } := by
  refine ⟨⟨named, fun member => listed.free _ member (by decide), ?_⟩, isValue.trimmed,
    listed.inert, ⟨uncut, nestingAfter_of_balanced isValue.balanced, closed⟩, ?_⟩
  · rw [Text.trim_of_trimmed isValue.trimmed]
    exact isValue.nonempty
  · exact braceFree_write_of_parts
      (braceFree_of_avoids (listed.free.of_subset (by decide))) braceFree

theorem Listed.braceFree : BraceFree (render setting.value) := braceFree_of_avoids listed.bare

theorem Listed.entire_declaration (named : Text.trim setting.property ≠ []) :
    setting.declaration.Entire :=
  listed.entire named listed.value listed.proper.closed listed.uncut listed.braceFree

/-- What is read of the value, if anything, is a written template again. -/
theorem Listed.exists_template (closed : Closed setting.declaration.asRead.value)
    (openEnd : endsInCallHead setting.declaration.asRead.value = false)
    (some : setting.declaration.asRead.value ≠ []) :
    ∃ template, render template = setting.declaration.asRead.value ∧ Proper template ∧
      IsValue (render template) ∧ ∀ c ∈ render template, c ∈ render setting.value := by
  have value := listed.value
  rcases @Declaration.asRead_cases setting.declaration value.trimmed with
    ⟨read, _⟩ | ⟨_, plain, tail, parts, isMark, read⟩
  · exact ⟨setting.value, by rw [read]; rfl, listed.proper, value, fun _ => id⟩
  · have parts : render setting.value = plain ++ tail := parts
    rw [read] at closed openEnd some ⊢
    obtain ⟨shorter, proper, same⟩ :=
      exists_render_eq listed.proper parts isMark.isTail.closer closed openEnd
    have balanced := isMark.isTail.balanced_of_append (parts ▸ value.balanced)
    have trimmed := Declaration.trimmed_asRead setting.declaration
    rw [read] at trimmed
    refine ⟨shorter, same, proper, same ▸ ⟨some, trimmed, balanced⟩, ?_⟩
    rw [same, parts]
    exact fun c member => List.mem_append_left _ member

end setting

/-! ### Definitions -/

/-- A template that is a value, with no characters but those of the settings. -/
structure MadeOf (settings : List Setting) (template : Template) : Prop where
  proper : Proper template
  value : IsValue (render template)
  drawn : ∀ c ∈ render template, ∃ setting ∈ settings, c ∈ render setting.value

theorem MadeOf.substitute {settings : List Setting} {definitions : Entries Text Template}
    (defined : ∀ entry ∈ definitions, MadeOf settings entry.2) {template : Template}
    (made : MadeOf settings template) (resolving : List Text) :
    MadeOf settings (Template.substitute definitions resolving template) := by
  have proper : ∀ entry ∈ definitions, Proper entry.2 := fun entry member =>
    (defined entry member).proper
  have values : ∀ entry ∈ definitions, IsValue (render entry.2) := fun entry member =>
    (defined entry member).value
  refine ⟨proper_substitute proper made.proper,
    isValue_substitute proper values resolving made.proper made.value, ?_⟩
  intro c member
  rcases mem_of_mem_substitute member with own | ⟨entry, stands, held⟩
  · exact made.drawn c own
  · exact (defined entry stands).drawn c held

theorem madeOf_resolved {settings : List Setting} {definitions : Entries Text Template}
    (defined : ∀ entry ∈ definitions, MadeOf settings entry.2) :
    ∀ entry ∈ resolved definitions, MadeOf settings entry.2 := by
  intro entry member
  obtain ⟨raw, listed, rfl⟩ := List.mem_map.mp member
  exact (defined raw listed).substitute defined [raw.1]

/-- Pairs of names and written templates are written pairs. -/
theorem exists_pairs {pairs : List (Text × Text)} {P : Template → Prop}
    (each : ∀ pair ∈ pairs, ∃ template, render template = pair.2 ∧ P template) :
    ∃ bodies : List (Text × Template),
      (bodies.map fun (name, body) => (name, render body)) = pairs ∧
        ∀ pair ∈ bodies, P pair.2 := by
  induction pairs with
  | nil => exact ⟨[], rfl, by simp⟩
  | cons pair rest ih =>
    obtain ⟨name, text⟩ := pair
    rw [List.forall_mem_cons] at each
    obtain ⟨⟨template, rfl, holds⟩, behind⟩ := each
    obtain ⟨bodies, rfl, every⟩ := ih behind
    exact ⟨(name, template) :: bodies, rfl, List.forall_mem_cons.mpr ⟨holds, every⟩⟩

section settings

variable {settings : List Setting} (listed : ∀ setting ∈ settings, setting.Listed)
include listed

theorem madeOf_value {setting : Setting} (member : setting ∈ settings) :
    MadeOf settings setting.value :=
  ⟨(listed setting member).proper, (listed setting member).value,
    fun _ held => ⟨setting, member, held⟩⟩

variable (keeps : ∀ setting ∈ settings, setting.Keeps (setting.expanded (scope settings)).value)
include keeps

theorem entire_declarations :
    ∀ declaration ∈ settings.map (·.declaration), declaration.Entire := by
  rw [List.forall_mem_map]
  exact fun setting member =>
    (listed setting member).entire_declaration (keeps setting member).named

/-- The definitions of the sheet are written templates. -/
theorem exists_definitions : ∃ bodies : Entries Text Template,
    definitions (sheet settings) = renderAll bodies ∧
      ∀ entry ∈ bodies, MadeOf settings entry.2 := by
  rw [sheet_eq_spell, definitions,
    customDeclarations_single (entire_declarations listed keeps) isHead_s]
  -- Each definition is what is read of a custom property, if that is anything.
  have each : ∀ pair ∈ ((((settings.map (·.declaration)).map Declaration.asRead).filter
      (·.isCustom)).filter (!·.value.isEmpty)).map fun declaration =>
        (declaration.property, declaration.value),
      ∃ template, render template = pair.2 ∧ MadeOf settings template := by
    intro pair member
    simp only [List.mem_map, List.mem_filter] at member
    obtain ⟨_, ⟨⟨⟨_, ⟨setting, stands, rfl⟩, rfl⟩, custom⟩, some⟩, rfl⟩ := member
    rw [isCustom_asRead] at custom
    obtain ⟨closed, openEnd⟩ := (keeps setting stands).definition custom
    obtain ⟨template, same, proper, value, inside⟩ :=
      (listed setting stands).exists_template closed openEnd (by simpa using some)
    exact ⟨template, same, proper, value, fun c held => ⟨setting, stands, inside c held⟩⟩
  obtain ⟨bodies, same, every⟩ := exists_pairs each
  refine ⟨Entries.ofList bodies, ?_, fun entry member =>
    every entry (Entries.mem_of_mem_ofList member)⟩
  rw [renderAll_ofList, ← same]

end settings

/-! ### References replaced -/

/-- The text of the sheet with its values standing in it. -/
theorem render_template_sheet {settings : List Setting}
    (wellFormed : ∀ setting ∈ settings, setting.declaration.isMalformed = false) :
    render (Draft.rule ['s'] settings .done).template = sheet settings := by
  have written : settings.map (render ∘ template)
      = settings.map (Declaration.write ∘ declaration) :=
    List.map_congr_left fun setting member => render_template (wellFormed setting member)
  simp [Draft.template, sheet, body, render_joined, Declaration.writeAll, written]

section settings

variable {settings : List Setting} (listed : ∀ setting ∈ settings, setting.Listed)
  (keeps : ∀ setting ∈ settings, setting.Keeps (setting.expanded (scope settings)).value)
include listed

theorem proper_template_sheet : Proper (Draft.rule ['s'] settings .done).template := by
  have opener : Plain ['s', '{'] := by decide
  have closer : Plain ['}'] := by decide
  have each : ∀ part ∈ settings.map (·.template), Proper part := by
    rw [List.forall_mem_map]
    exact fun setting member => proper_template (listed setting member).inert
      (listed setting member).proper
  have inside : Proper (joined (settings.map (·.template))) := proper_joined each
  exact .text opener (inside.append (.text closer .nil))

include keeps

theorem isMalformed_of_mem {setting : Setting} (member : setting ∈ settings) :
    setting.declaration.isMalformed = false :=
  ((listed setting member).entire_declaration (keeps setting member).named).loose.isMalformed

/-- With its references replaced the sheet is that of another list. -/
theorem exists_replaced : ∃ settled : List Setting,
    replaced (sheet settings) = sheet settled ∧
      settled.map (·.declaration) = settings.map (·.expanded (scope settings)) ∧
      ∀ setting ∈ settled, MadeOf settings setting.value := by
  obtain ⟨bodies, found, made⟩ := exists_definitions listed keeps
  have proper : ∀ entry ∈ bodies, Proper entry.2 := fun entry held => (made entry held).proper
  have text := render_template_sheet fun setting => isMalformed_of_mem listed keeps
  have each : ∀ setting ∈ settings.map (·.substitute (resolved bodies)),
      MadeOf settings setting.value := by
    rw [List.forall_mem_map]
    exact fun setting member =>
      (madeOf_value listed member).substitute (madeOf_resolved made) []
  refine ⟨settings.map (·.substitute (resolved bodies)), ?_, ?_, each⟩
  · have named : ∀ setting ∈ settings.map (·.substitute (resolved bodies)),
        setting.declaration.isMalformed = false := by
      intro setting member
      have value := (each setting member).value.nonempty
      obtain ⟨source, stands, rfl⟩ := List.mem_map.mp member
      have own := Declaration.isMalformed_eq_false.mp (isMalformed_of_mem listed keeps stands)
      exact Declaration.isMalformed_eq_false.mpr ⟨own.1, value⟩
    rw [← text] at found ⊢
    rw [replaced, resolve_resolveAll proper (proper_template_sheet listed) found,
      Draft.substitute_template]
    exact render_template_sheet named
  · rw [List.map_map]
    apply List.map_congr_left
    intro setting member
    rw [expanded, scope, found, resolveAll_renderAll proper,
      resolve_render (proper_resolved proper) [] (listed setting member).proper]
    rfl

theorem exists_expanded {setting : Setting} (member : setting ∈ settings) :
    ∃ template, render template = (setting.expanded (scope settings)).value ∧
      MadeOf settings template := by
  obtain ⟨settled, _, same, each⟩ := exists_replaced listed keeps
  have stands := List.mem_map_of_mem (f := (·.expanded (scope settings))) member
  rw [← same] at stands
  obtain ⟨other, held, parts⟩ := List.mem_map.mp stands
  exact ⟨other.value, congrArg Declaration.value parts, each other held⟩

/-- A character of a replaced value is one of the list. -/
theorem exists_of_mem_expanded {setting : Setting} (member : setting ∈ settings) {c : Char}
    (held : c ∈ (setting.expanded (scope settings)).value) :
    ∃ source ∈ settings, c ∈ render source.value := by
  obtain ⟨template, same, made⟩ := exists_expanded listed keeps member
  rw [← same] at held
  exact made.drawn c held

theorem entire_expanded {setting : Setting} (member : setting ∈ settings) :
    (setting.expanded (scope settings)).Entire := by
  obtain ⟨template, same, made⟩ := exists_expanded listed keeps member
  have uncut := (keeps setting member).uncut
  have braceFree : BraceFree (render template) := by
    intro c held
    obtain ⟨source, stands, own⟩ := made.drawn c held
    exact (listed source stands).braceFree c own
  rw [← same] at uncut
  have whole := (listed setting member).entire (keeps setting member).named made.value
    made.proper.closed uncut braceFree
  rwa [same] at whole

end settings

/-! ### Expansion -/

/-- The regular declarations of the list as they are read once their references are replaced. -/
def regular (settings : List Setting) : List Declaration :=
  (settings.map fun setting => (setting.expanded (scope settings)).asRead).filter (!·.isCustom)

section settings

variable {settings : List Setting} (listed : ∀ setting ∈ settings, setting.Listed)
  (keeps : ∀ setting ∈ settings, setting.Keeps (setting.expanded (scope settings)).value)
  (reference : ∃ setting ∈ settings, setting.value.holdsReference = true)
include listed keeps

theorem commentFree_sheet : CommentFree (sheet settings) := by
  rw [sheet_eq_spell, Layout.commentFree_spell_iff]
  refine ⟨isHead_s.commentFree, ?_, rfl⟩
  refine CommentFree.join Text.blank_nil ?_
  rw [List.forall_mem_map, List.forall_mem_map]
  exact fun setting member => Declaration.holds_opener_write (keeps setting member).commentFree
    (listed setting member).clean

include reference

theorem spellsReference_sheet : spellsReference (sheet settings) = true := by
  obtain ⟨setting, member, held⟩ := reference
  obtain ⟨part, stands, called⟩ := List.any_eq_true.mp held
  have inside : setting ∈ (Draft.rule ['s'] settings .done).settings :=
    List.mem_append_left _ member
  have whole : (Draft.rule ['s'] settings .done).template.holdsReference = true :=
    List.any_eq_true.mpr ⟨part, Draft.mem_template inside stands, called⟩
  rw [← hasReference_render (proper_template_sheet listed),
    render_template_sheet fun setting => isMalformed_of_mem listed keeps] at whole
  exact spellsReference_of_hasReference whole

theorem expand_sheet : expand (sheet settings)
    = if (customDeclarations (replaced (sheet settings))).isEmpty then replaced (sheet settings)
      else dropCustom (replaced (sheet settings)) := by
  rw [expand_of_spelled (spellsReference_sheet listed keeps reference),
    Comment.strip_of_openerFree (commentFree_sheet listed keeps), flatten, replaced]

/-- Expanding the sheet leaves the rule with the regular declarations, or nothing. -/
theorem parse_expand_sheet : parse (expand (sheet settings))
    = { nodes := ruleOf ['s'] (regular settings), trailing := [] } := by
  obtain ⟨settled, text, same, _⟩ := exists_replaced listed keeps
  have some : settings.map (·.expanded (scope settings)) ≠ [] := by
    obtain ⟨setting, member, _⟩ := reference
    exact List.ne_nil_of_mem (List.mem_map_of_mem member)
  have entire : ∀ declaration ∈ settings.map (·.expanded (scope settings)),
      declaration.Entire := by
    rw [List.forall_mem_map]
    exact fun setting => entire_expanded listed keeps
  have valued : ∀ declaration ∈ settings.map (·.expanded (scope settings)),
      declaration.asRead.isCustom = false → declaration.asRead.value ≠ [] := by
    rw [List.forall_mem_map]
    intro setting member regular
    rw [isCustom_expanded] at regular
    exact (keeps setting member).valued regular
  have clean : ∀ declaration ∈ settings.map (·.expanded (scope settings)),
      declaration.asRead.isCustom = false → CommentFree declaration.write := by
    rw [List.forall_mem_map]
    intro setting member regular
    rw [isCustom_expanded] at regular
    exact Declaration.holds_opener_write (keeps setting member).commentFree
      ((keeps setting member).clean regular)
  rw [expand_sheet listed keeps reference, text, sheet_eq_spell, same,
    parse_dropCustom_single entire isHead_s rfl some valued clean, List.map_map]
  rfl

end settings

end Setting
end ThemeCss.Variables
