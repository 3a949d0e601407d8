import ThemeCss.Proofs.Sheet.Pruned
import ThemeCss.Proofs.Variables.CommentFree
import ThemeCss.Proofs.Variables.Definitions

/-!
# Drafts

A draft is a sheet whose values are templates, so what expansion means can be said of it without
looking at text: substitute the values, leave out the custom properties, and then the rules and the
groups that are left with nothing. Written out, a draft is the text of a layout, and it can be read
back from there.
-/
namespace ThemeCss.Variables

open Scan Sheet Template

/-- A declaration whose value is a template. -/
structure Setting where
  property : Text
  value : Template
  important : Bool := false

namespace Setting

def declaration (setting : Setting) : Declaration where
  property := setting.property
  value := render setting.value
  important := setting.important

def isCustom (setting : Setting) : Bool := Declaration.isCustomName setting.property

def substitute (definitions : Entries Text Template) (setting : Setting) : Setting :=
  { setting with value := Template.substitute definitions [] setting.value }

/-- What can stand in a block and be read back from there. -/
structure WellFormed (setting : Setting) : Prop where
  named : setting.property ≠ []
  trimmed : Text.Trimmed setting.property
  free : Text.Avoids [':', ';', '{', '}', '(', ')', '\'', '"', '\\'] setting.property
  commentFree : CommentFree setting.property
  proper : Proper setting.value
  value : IsValue (render setting.value)
  bare : Text.Avoids ['{', '}', '!'] (render setting.value)
  uncut : solid 0 .code (render setting.value) = true

instance (setting : Setting) : Decidable setting.WellFormed :=
  decidable_of_iff (setting.property ≠ [] ∧ Text.Trimmed setting.property ∧
      Text.Avoids [':', ';', '{', '}', '(', ')', '\'', '"', '\\'] setting.property ∧
      CommentFree setting.property ∧ Proper setting.value ∧ IsValue (render setting.value) ∧
      Text.Avoids ['{', '}', '!'] (render setting.value) ∧
      solid 0 .code (render setting.value) = true)
    ⟨fun ⟨named, trimmed, free, commentFree, proper, value, bare, uncut⟩ =>
        ⟨named, trimmed, free, commentFree, proper, value, bare, uncut⟩,
      fun ⟨named, trimmed, free, commentFree, proper, value, bare, uncut⟩ =>
        ⟨named, trimmed, free, commentFree, proper, value, bare, uncut⟩⟩

end Setting

/-- A sheet of statements, rules and groups. -/
inductive Draft where
  | done
  | statement (prelude : Text) (rest : Draft)
  | rule (selector : Text) (settings : List Setting) (rest : Draft)
  | group (prelude : Text) (inner rest : Draft)

namespace Draft

/-- The sheet as a tree. -/
def nodes : Draft → List Node
  | .done => []
  | .statement prelude rest => .statement prelude :: rest.nodes
  | .rule selector settings rest => .rule selector (settings.map (·.declaration)) :: rest.nodes
  | .group prelude inner rest => .group prelude inner.nodes :: rest.nodes

/-- All declarations of the sheet, in document order. -/
def settings : Draft → List Setting
  | .done => []
  | .statement _ rest => rest.settings
  | .rule _ settings rest => settings ++ rest.settings
  | .group _ inner rest => inner.settings ++ rest.settings

/-- The custom properties; the last declaration of a name counts. -/
def definitions (draft : Draft) : Entries Text Template :=
  Entries.ofList <| (draft.settings.filter (·.isCustom)).map fun setting =>
    (setting.property, setting.value)

/-- The sheet with every value substituted. -/
def substitute (definitions : Entries Text Template) : Draft → Draft
  | .done => .done
  | .statement prelude rest => .statement prelude (rest.substitute definitions)
  | .rule selector settings rest =>
    .rule selector (settings.map (·.substitute definitions)) (rest.substitute definitions)
  | .group prelude inner rest =>
    .group prelude (inner.substitute definitions) (rest.substitute definitions)

/-- The tree without custom properties, and without the rules and groups left with nothing. -/
def regular : Draft → List Node
  | .done => []
  | .statement prelude rest => .statement prelude :: rest.regular
  | .rule selector settings rest =>
    let declarations := (settings.filter (!·.isCustom)).map (·.declaration)
    if declarations.isEmpty then rest.regular else .rule selector declarations :: rest.regular
  | .group prelude inner rest =>
    if inner.regular.isEmpty then rest.regular else .group prelude inner.regular :: rest.regular

/-- A selector or a prelude that opens nothing. -/
structure IsHead (head : Text) : Prop where
  trimmed : Text.Trimmed head
  free : Text.Avoids ['{', '}', ';', '\'', '"', '\\'] head
  commentFree : CommentFree head
  unspelled : spellsReference head = false

instance (head : Text) : Decidable (IsHead head) :=
  decidable_of_iff (Text.Trimmed head ∧ Text.Avoids ['{', '}', ';', '\'', '"', '\\'] head ∧
      CommentFree head ∧ spellsReference head = false)
    ⟨fun ⟨trimmed, free, commentFree, unspelled⟩ => ⟨trimmed, free, commentFree, unspelled⟩,
      fun ⟨trimmed, free, commentFree, unspelled⟩ => ⟨trimmed, free, commentFree, unspelled⟩⟩

/-- No statement stands beside the rules and groups. -/
def Blocks : Draft → Prop
  | .done => True
  | .statement _ _ => False
  | .rule _ _ rest => rest.Blocks
  | .group _ _ rest => rest.Blocks

/-- Preludes and selectors are what they look like, and a group has rules or groups inside. -/
def Shaped : Draft → Prop
  | .done => True
  | .statement prelude rest => IsHead prelude ∧ opensAt prelude = true ∧ rest.Shaped
  | .rule selector _ rest => IsHead selector ∧ opensAt selector = false ∧ rest.Shaped
  | .group prelude inner rest =>
    IsHead prelude ∧ opensAt prelude = true ∧ inner ≠ .done ∧ inner.Blocks ∧ inner.Shaped ∧
      rest.Shaped

instance : ∀ draft : Draft, Decidable (draft = .done)
  | .done => .isTrue rfl
  | .statement _ _ => .isFalse nofun
  | .rule _ _ _ => .isFalse nofun
  | .group _ _ _ => .isFalse nofun

instance decidableBlocks : ∀ draft : Draft, Decidable draft.Blocks
  | .done => inferInstanceAs (Decidable True)
  | .statement _ _ => inferInstanceAs (Decidable False)
  | .rule _ _ rest => decidableBlocks rest
  | .group _ _ rest => decidableBlocks rest

instance decidableShaped : ∀ draft : Draft, Decidable draft.Shaped
  | .done => inferInstanceAs (Decidable True)
  | .statement _ rest =>
    have := decidableShaped rest
    inferInstanceAs (Decidable (_ ∧ _ ∧ _))
  | .rule _ _ rest =>
    have := decidableShaped rest
    inferInstanceAs (Decidable (_ ∧ _ ∧ _))
  | .group _ inner rest =>
    have := decidableShaped inner
    have := decidableShaped rest
    inferInstanceAs (Decidable (_ ∧ _ ∧ _ ∧ _ ∧ _ ∧ _))

end Draft

/-! ### Declarations of a draft -/

theorem braceFree_write_of_parts {declaration : Declaration}
    (property : BraceFree declaration.property) (value : BraceFree declaration.value) :
    BraceFree declaration.write := by
  intro c member
  -- Every character is one of the property, of the value or of what writing puts in.
  rcases Declaration.mem_write member with named | valued | marked
  · exact property c named
  · exact value c valued
  · have every : BraceFree (':' :: Declaration.mark) := by decide
    exact every c marked

namespace Setting

theorem WellFormed.valued {setting : Setting} (wellFormed : setting.WellFormed) :
    render setting.value ≠ [] := wellFormed.value.nonempty

theorem WellFormed.inert_property {setting : Setting} (wellFormed : setting.WellFormed) :
    ∀ c ∈ setting.property, isInert c = true :=
  inert_of_avoids (wellFormed.free.of_subset (by decide))

theorem WellFormed.readable {setting : Setting} (wellFormed : setting.WellFormed) :
    setting.declaration.Readable where
  named := wellFormed.named
  property := wellFormed.trimmed
  colonFree := fun member => wellFormed.free _ member (by decide)
  valued := wellFormed.valued
  value := wellFormed.value.trimmed
  mark := by
    right
    apply Declaration.dropImportant?_of_free
    exact fun member => wellFormed.bare _ member (by decide)

theorem WellFormed.whole_value {setting : Setting} (wellFormed : setting.WellFormed) :
    Whole (render setting.value) :=
  ⟨wellFormed.uncut, nestingAfter_of_balanced wellFormed.value.balanced, wellFormed.proper.closed⟩

theorem WellFormed.whole_write {setting : Setting} (wellFormed : setting.WellFormed) :
    Whole setting.declaration.write :=
  wellFormed.readable.whole_write wellFormed.inert_property wellFormed.whole_value

theorem WellFormed.contained {setting : Setting} (wellFormed : setting.WellFormed) :
    setting.declaration.Contained :=
  ⟨.inl wellFormed.named, wellFormed.whole_write.level, wellFormed.whole_write.closed⟩

theorem WellFormed.commentFree_write {setting : Setting} (wellFormed : setting.WellFormed)
    (clean : CommentFree (render setting.value)) : CommentFree setting.declaration.write :=
  Declaration.holds_opener_write wellFormed.commentFree clean

theorem WellFormed.braceFree_write {setting : Setting} (wellFormed : setting.WellFormed) :
    BraceFree setting.declaration.write :=
  braceFree_write_of_parts (braceFree_of_avoids (wellFormed.free.of_subset (by decide)))
    (braceFree_of_avoids (wellFormed.bare.of_subset (by decide)))

/-- The block that the declarations are written into. -/
def body (settings : List Setting) : Text :=
  Declaration.writeAll (settings.map (·.declaration))

section body

variable {settings : List Setting} (wellFormed : ∀ setting ∈ settings, setting.WellFormed)
include wellFormed

theorem readable_of_mem {declaration : Declaration}
    (member : declaration ∈ settings.map (·.declaration)) : declaration.Readable := by
  obtain ⟨setting, listed, rfl⟩ := List.mem_map.mp member
  exact (wellFormed setting listed).readable

/-- A block is read back as the declarations that were written into it. -/
theorem parseAll_body : Declaration.parseAll (body settings) = settings.map (·.declaration) :=
  Declaration.parseAll_writeAll (fun _ => readable_of_mem wellFormed)
    (by simpa using fun setting member => (wellFormed setting member).whole_write)

theorem kept_body :
    kept (body settings) = (settings.filter (!·.isCustom)).map (·.declaration) := by
  rw [kept, parseAll_body wellFormed, List.filter_map]
  rfl

theorem flatMap_reread_kept :
    (kept (body settings)).flatMap Declaration.reread = kept (body settings) := by
  apply Declaration.flatMap_reread_of_readable
  intro declaration member
  rw [kept, parseAll_body wellFormed] at member
  exact readable_of_mem wellFormed (List.mem_filter.mp member).1

theorem contained_of_mem_kept {declaration : Declaration}
    (member : declaration ∈ kept (body settings)) : declaration.Contained := by
  rw [kept_body wellFormed] at member
  obtain ⟨setting, listed, rfl⟩ := List.mem_map.mp member
  exact (wellFormed setting (List.mem_filter.mp listed).1).contained

theorem braceFree_body : BraceFree (body settings) :=
  BraceFree.join (by decide)
    (by simpa using fun setting member => (wellFormed setting member).braceFree_write)

theorem closed_body : Closed (body settings) :=
  Closed.join (by decide)
    (by simpa using fun setting member => (wellFormed setting member).whole_write.closed)

end body

end Setting

end ThemeCss.Variables
