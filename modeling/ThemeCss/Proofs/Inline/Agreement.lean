import ThemeCss.Markup.Html
import ThemeCss.Proofs.Inline.Unrendered
import ThemeCss.Proofs.Variables.Listed
import ThemeCss.Proofs.Variables.Within

/-!
# Sheets and styles agree

One list of declarations can be the only rule of a sheet and the style of an element. Expansion
replaces the references in the text and reads the declarations afterwards; the walk over the
elements reads them first and replaces the references in each. Both come to the same declarations,
for any definitions, and where one removes the rule the other removes the style.
-/
namespace ThemeCss

namespace Tag

theorem value?_drop (tag : Tag) (name : Text) : (tag.drop name).value? name = none := by
  simp [drop, value?]

theorem value?_set (tag : Tag) (name value : Text) :
    (tag.set name value).value? name = some value := by
  rw [set]
  cases there : tag.has name with
  | true =>
    have met : (tag.attributes.find? (·.name == name)).isSome :=
      List.find?_isSome.mpr (List.any_eq_true.mp there)
    obtain ⟨entry, found⟩ := Option.isSome_iff_exists.mp met
    have named : entry.name = name := by simpa using List.find?_some found
    -- Giving an attribute a value keeps its name, so the same one is found.
    have same : ∀ other : Attribute, ((if other.name = name then { other with value := some value }
        else other).name == name) = (other.name == name) := by
      intro other
      split <;> rfl
    simp [value?, List.find?_map, same, found, named]
  | false =>
    have absent : tag.attributes.find? (·.name == name) = none := by
      simpa [has] using there
    simp [value?, List.find?_append, absent]

end Tag

namespace Inline

open Scan Sheet Variables

variable {Failure : Type} {settings : List Setting}

/-- Without ancestors the declarations of an element are all that is defined. -/
theorem scopeInside_nil (declarations : List Declaration) :
    scopeInside [] (localDefinitions declarations)
      = resolveAll (localDefinitions declarations) := by
  rw [scopeInside]
  simp only [List.append_nil]
  rw [← resolveAll, Entries.merge_of_nodup, List.nil_append]
  -- Resolving keeps the names, and those are collected once each.
  have names : (resolveAll (localDefinitions declarations)).map Prod.fst
      = (localDefinitions declarations).map Prod.fst := by
    rw [resolveAll, List.map_map]
    rfl
  rw [List.nil_append, names]
  exact Entries.nodup_keys_ofList _

/-! ### What is read -/

/-- The names of the list are in lower case as they are read. -/
theorem lowerProperty_of_listed {setting : Setting} (listed : setting.Listed)
    {declaration : Declaration} (same : declaration.property = Text.trim setting.property) :
    lowerProperty declaration = declaration := by
  simp only [lowerProperty]
  split
  next => rfl
  next regular =>
    have regular : Declaration.isCustomName declaration.property = false := by
      simpa [Declaration.isCustom] using regular
    have lower := listed.lower (by rwa [Setting.isDefinition, ← same])
    rw [same, Text.lower_trim lower, ← same]

/-- A style that reads as declarations with names of the list is parsed to those well-formed. -/
theorem parse_of_listed (listed : ∀ setting ∈ settings, setting.Listed) {style : Text}
    {declarations : List Declaration} (read : Declaration.parseAll style = declarations)
    (named : ∀ declaration ∈ declarations, ∃ setting ∈ settings,
      declaration.property = Text.trim setting.property) :
    parse style = declarations.filter (!·.isMalformed) := by
  have each : ∀ declaration ∈ declarations.filter (!·.isMalformed),
      lowerProperty declaration = id declaration := by
    intro declaration member
    obtain ⟨setting, stands, same⟩ := named declaration (List.mem_filter.mp member).1
    exact lowerProperty_of_listed (listed setting stands) same
  rw [parse, read, List.map_congr_left each, List.map_id]

/-- Whole declarations are read back one by one. -/
theorem parseAll_write {declarations : List Declaration}
    (whole : ∀ declaration ∈ declarations, Whole declaration.write) :
    Declaration.parseAll (write declarations) = declarations.flatMap Declaration.reread := by
  have blank : Text.Blank [' '] := by decide
  by_cases none : declarations = []
  · rw [none]
    rfl
  · have shown : declarations.isEmpty = false := by simpa using none
    have padded := Declaration.parseAll_join_append blank none whole
    rw [List.append_cons, Declaration.parseAll, Scan.chunks_append_blank blank,
      ← Declaration.parseAll] at padded
    rw [write, shown, if_neg (by simp), padded]

/-- A style is parsed back as the declarations that were written into it, their names being read as
they are. -/
theorem parse_write_of_readable {declarations : List Declaration}
    (readable : ∀ declaration ∈ declarations, Declaration.Readable declaration)
    (lower : ∀ declaration ∈ declarations, lowerProperty declaration = declaration)
    (whole : ∀ declaration ∈ declarations, Whole declaration.write) :
    parse (write declarations) = declarations := by
  have wellFormed : declarations.filter (!·.isMalformed) = declarations := by
    rw [List.filter_eq_self]
    intro declaration member
    rw [(readable declaration member).wellFormed]
    rfl
  have named : declarations.map lowerProperty = declarations := by
    rw [@List.map_congr_left _ _ _ _ id lower, List.map_id]
  rw [parse, parseAll_write whole, Declaration.flatMap_reread_of_readable readable, wellFormed,
    named]

section characters

variable [Markup.Library]

theorem isSettable_of_isAllowed {text : Text} (allowed : text.all Markup.isAllowed = true) :
    Markup.isSettable text = true :=
  List.all_eq_true.mpr fun c held =>
    Markup.Library.allows_of_isAllowed (List.all_eq_true.mp allowed c held)

/-- What an attribute takes of the names and values it takes of what they are written to. -/
theorem isSettable_write {declarations : List Declaration}
    (allowed : ∀ declaration ∈ declarations, ∀ c,
      c ∈ declaration.property ∨ c ∈ declaration.value → Markup.Library.allows c = true) :
    Markup.isSettable (write declarations) = true := by
  have each : ∀ part ∈ declarations.map Declaration.write, Markup.isSettable part = true := by
    rw [List.forall_mem_map]
    intro declaration member
    refine List.all_eq_true.mpr fun c written => ?_
    rcases Declaration.mem_write written with inName | inValue | marked
    · exact allowed declaration member c (.inl inName)
    · exact allowed declaration member c (.inr inValue)
    · have every : Markup.isSettable (':' :: Declaration.mark) = true :=
        isSettable_of_isAllowed (by decide)
      exact List.all_eq_true.mp every c marked
  have append : ∀ first second : Text, Markup.isSettable first = true →
      Markup.isSettable second = true → Markup.isSettable (first ++ second) = true := by
    intro first second left right
    rw [Markup.isSettable, List.all_append, Bool.and_eq_true]
    exact ⟨left, right⟩
  have glue : Markup.isSettable [';', ' '] = true := isSettable_of_isAllowed (by decide)
  rw [write]
  split
  · rfl
  · have joined := Text.intercalate_induction (P := (Markup.isSettable · = true)) rfl append glue
      each
    exact append _ _ joined (isSettable_of_isAllowed (by decide))

end characters

/-- The settings that are read as regular declarations. -/
def regulars (settings : List Setting) : List Setting :=
  settings.filter fun setting => !setting.isDefinition

/-- What the walk leaves of the list: its regular declarations with their references replaced. -/
def remaining (settings : List Setting) : List Declaration :=
  (regulars settings).map fun setting =>
    resolved (Setting.scope settings) setting.declaration.asRead

theorem regular_eq (settings : List Setting) : Setting.regular settings
    = (regulars settings).map fun setting =>
        (setting.expanded (Setting.scope settings)).asRead := by
  rw [Setting.regular, List.filter_map, regulars]
  congr 1
  apply List.filter_congr
  intro setting _
  rw [Function.comp, Setting.isCustom_expanded]

theorem of_mem_regulars {setting : Setting} (member : setting ∈ regulars settings) :
    setting ∈ settings ∧ setting.isDefinition = false := by
  obtain ⟨stands, regular⟩ := List.mem_filter.mp member
  exact ⟨stands, by simpa using regular⟩

section list

variable (listed : ∀ setting ∈ settings, setting.Listed)
  (keeps : ∀ setting ∈ settings,
    setting.Keeps (setting.expanded (Setting.scope settings)).value)
include listed keeps

theorem parse_body : parse (Setting.body settings)
    = (settings.map (·.declaration.asRead)).filter (!·.isMalformed) := by
  have read := parseAll_writeAll_of_entire (Setting.entire_declarations listed keeps)
  rw [List.map_map] at read
  apply parse_of_listed listed read
  rw [List.forall_mem_map]
  exact fun setting member => ⟨setting, member, Declaration.property_asRead setting.declaration⟩

/-- The style defines what the sheet defines. -/
theorem localDefinitions_body :
    localDefinitions (parse (Setting.body settings)) = definitions (Setting.sheet settings) := by
  have entire := Setting.entire_declarations listed keeps
  rw [localDefinitions, parse_body listed keeps, definitions, Setting.sheet_eq_spell,
    customDeclarations_single entire Setting.isHead_s, List.map_map, List.filter_filter,
    List.filter_filter]
  congr 2
  apply List.filter_congr
  intro declaration member
  obtain ⟨setting, stands, rfl⟩ := List.mem_map.mp member
  -- The name is there, so only the value can be missing.
  have named : (Text.trim setting.declaration.property).isEmpty = false :=
    List.isEmpty_eq_false_iff.mpr (keeps setting stands).named
  simp [Declaration.isMalformed, named, Bool.and_comm]

theorem scopeInside_body :
    scopeInside [] (localDefinitions (parse (Setting.body settings)))
      = Setting.scope settings := by
  rw [scopeInside_nil, localDefinitions_body listed keeps, Setting.scope]

/-! ### What is left of a regular declaration -/

section member

variable {setting : Setting} (member : setting ∈ settings)
include member

/-- The mark can be taken off before the references are replaced or after. -/
theorem asRead_resolved :
    (resolved (Setting.scope settings) setting.declaration.asRead).asRead
      = (setting.expanded (Setting.scope settings)).asRead :=
  Declaration.asRead_change (resolve_append_tail _ []) (listed setting member).value.trimmed
    (Setting.entire_expanded listed keeps member).trimmed

variable (regular : setting.isDefinition = false)
include regular

theorem loose_resolved :
    (resolved (Setting.scope settings) setting.declaration.asRead).Loose ∧
      Whole (resolved (Setting.scope settings) setting.declaration.asRead).write := by
  have own := (listed setting member).entire_declaration (keeps setting member).named
  have entire := Setting.entire_expanded listed keeps member
  have valued : (setting.expanded (Setting.scope settings)).value ≠ [] := by
    intro none
    exact entire.loose.valued (by rw [none]; rfl)
  have appends := resolve_append_tail (Setting.scope settings) []
  have some := (keeps setting member).valued regular
  exact ⟨Declaration.loose_change appends own.trimmed entire.trimmed own.loose valued some,
    Declaration.whole_write_change appends own.trimmed entire.trimmed own.loose valued some
      own.inert entire.whole⟩

theorem isMalformed_asRead : setting.declaration.asRead.isMalformed = false := by
  have own := (listed setting member).entire_declaration (keeps setting member).named
  obtain ⟨loose, _⟩ := loose_resolved listed keeps member regular
  rw [Declaration.isMalformed_eq_false, Declaration.property_asRead]
  refine ⟨own.loose.named, fun none => loose.valued ?_⟩
  -- Nothing comes of nothing.
  have nothing : resolve (Setting.scope settings) [] [] = [] := resolve_of_referenceFree rfl _ []
  rw [resolved, none, nothing]
  rfl

end member

/-! ### What is left of the list -/

theorem regularOf_body {tag : Tag} (styled : tag.value? styleName = some (Setting.body settings)) :
    regularOf tag = (regulars settings).map (·.declaration.asRead) := by
  rw [regularOf, declarationsOf, styled, Option.getD_some, parse_body listed keeps,
    List.filter_filter, List.filter_map, regulars]
  congr 1
  apply List.filter_congr
  intro setting member
  rw [Function.comp, Setting.isCustom_asRead]
  -- A regular declaration has a value, so it is not passed over.
  cases custom : setting.isDefinition with
  | true => rfl
  | false => rw [isMalformed_asRead listed keeps member custom]; rfl

theorem settledOf_body {tag : Tag} (styled : tag.value? styleName = some (Setting.body settings))
    (other : tag.name ≠ ['p']) :
    settledOf (Setting.scope settings) tag = (remaining settings, false) := by
  rw [settledOf, settleMargins, if_neg other, regularOf_body listed keeps styled, List.map_map]
  rfl

theorem isTouched_body {tag : Tag} (styled : tag.value? styleName = some (Setting.body settings))
    (reference : ∃ setting ∈ settings, setting.value.holdsReference = true) :
    isTouched (Setting.scope settings) tag = true := by
  obtain ⟨setting, member, held⟩ := reference
  have own := listed setting member
  have called : hasReference setting.declaration.asRead.value = true := by
    rw [Declaration.hasReference_asRead own.value.trimmed]
    exact (Template.hasReference_render own.proper).trans held
  rw [isTouched, regularOf_body listed keeps styled]
  cases custom : setting.isDefinition with
  -- The reference stands in a definition or in a regular declaration.
  | true =>
    have valued : setting.declaration.asRead.isMalformed = false := by
      rw [Declaration.isMalformed_eq_false, Declaration.property_asRead]
      refine ⟨(keeps setting member).named, fun none => ?_⟩
      rw [none] at called
      exact absurd called (by decide)
    have read : setting.declaration.asRead ∈ (declarationsOf tag).filter (·.isCustom) := by
      rw [declarationsOf, styled, Option.getD_some, parse_body listed keeps, List.mem_filter,
        List.mem_filter, valued, Setting.isCustom_asRead]
      exact ⟨⟨List.mem_map_of_mem member, rfl⟩, custom⟩
    have defined : setting.declaration.asRead.property ∈ (definitionsOf tag).map Prod.fst := by
      rw [definitionsOf, localDefinitions, Entries.mem_keys_ofList, List.map_map]
      exact List.mem_map_of_mem read
    have some : definitionsOf tag ≠ [] := by
      intro none
      simp [none] at defined
    simp [some]
  | false =>
    have regular : setting ∈ regulars settings := List.mem_filter.mpr ⟨member, by rw [custom]; rfl⟩
    have found : ((regulars settings).map (·.declaration.asRead)).any (hasReference ·.value)
        = true := List.any_eq_true.mpr ⟨_, List.mem_map_of_mem regular, called⟩
    rw [found, Bool.or_true, Bool.true_or]

/-- What is left of the list is read back as expansion leaves it. -/
theorem parse_write_remaining :
    parse (write (remaining settings)) = Setting.regular settings := by
  have each : ∀ declaration ∈ remaining settings,
      declaration.Loose ∧ Whole declaration.write := by
    rw [remaining, List.forall_mem_map]
    intro setting member
    obtain ⟨stands, regular⟩ := of_mem_regulars member
    exact loose_resolved listed keeps stands regular
  have read : Declaration.parseAll (write (remaining settings)) = Setting.regular settings := by
    rw [parseAll_write fun declaration member => (each declaration member).2,
      Declaration.flatMap_reread_of_loose fun declaration member => (each declaration member).1,
      remaining, List.map_map, regular_eq]
    apply List.map_congr_left
    intro setting member
    exact asRead_resolved listed keeps (of_mem_regulars member).1
  have named : ∀ declaration ∈ Setting.regular settings, ∃ setting ∈ settings,
      declaration.property = Text.trim setting.property ∧ declaration.isMalformed = false := by
    rw [regular_eq, List.forall_mem_map]
    intro setting member
    obtain ⟨stands, regular⟩ := of_mem_regulars member
    have own := keeps setting stands
    have property := Declaration.property_asRead (setting.expanded (Setting.scope settings))
    refine ⟨setting, stands, property,
      Declaration.isMalformed_eq_false.mpr ⟨?_, own.valued regular⟩⟩
    rw [property]
    exact own.named
  rw [parse_of_listed listed read fun declaration member => ?_, List.filter_eq_self]
  · intro declaration member
    obtain ⟨_, _, _, wellFormed⟩ := named declaration member
    rw [wellFormed]
    rfl
  · obtain ⟨setting, stands, property, _⟩ := named declaration member
    exact ⟨setting, stands, property⟩

/-! ### Characters -/

theorem mem_body {setting : Setting} (member : setting ∈ settings) {c : Char}
    (held : c ∈ setting.property ∨ c ∈ Template.render setting.value) :
    c ∈ Setting.body settings := by
  have written : c ∈ setting.declaration.write := by
    rw [Declaration.write_of_wellFormed (Setting.isMalformed_of_mem listed keeps member)]
    rcases held with inName | inValue
    · exact List.mem_append_left _ inName
    · apply List.mem_append_right
      exact List.mem_cons_of_mem _ (List.mem_cons_of_mem _ (List.mem_append_left _ inValue))
  have part : setting.declaration.write ∈ (settings.map (·.declaration)).map Declaration.write :=
    List.mem_map_of_mem (List.mem_map_of_mem member)
  exact Text.mem_intercalate part written

/-- An attribute that takes the style takes what is left of it. -/
theorem isSettable_write_remaining [Markup.Library]
    (settable : Markup.isSettable (Setting.body settings) = true) :
    Markup.isSettable (write (remaining settings)) = true := by
  have allowed : ∀ setting ∈ settings, ∀ c, c ∈ setting.property ∨
      c ∈ Template.render setting.value → Markup.Library.allows c = true :=
    fun setting member c held =>
      List.all_eq_true.mp settable c (mem_body listed keeps member held)
  refine isSettable_write ?_
  rw [remaining, List.forall_mem_map]
  intro setting member c held
  have stands := (of_mem_regulars member).1
  rcases held with inName | inValue
  · rw [resolved, Declaration.property_asRead] at inName
    exact allowed setting stands c (.inl (Text.mem_of_mem_trim inName))
  · have inExpanded : c ∈ (setting.expanded (Setting.scope settings)).value :=
      Declaration.mem_change_asRead (resolve_append_tail _ []) (listed setting stands).value.trimmed
        inValue
    obtain ⟨source, own, held⟩ := Setting.exists_of_mem_expanded listed keeps stands inExpanded
    exact allowed source own c (.inr held)

end list

/-- The rule that the style of an element makes, if there is one. -/
def ruleOfStyle (tag : Tag) : List Node :=
  match tag.value? styleName with
  | none => []
  | some style => [.rule ['s'] (parse style)]

/-- Expanding a sheet that has the list as its only rule and resolving the element, which has it as
its style, leave the same declarations, and one removes the rule where the other removes the
style. -/
def Agree [Markup.Library] (Failure : Type) (settings : List Setting) (tag : Tag) : Prop :=
  ∃ written scope,
    resolveTag (noLiveStyle : LiveStyle Failure Id) [] tag = pure (written, scope) ∧
    Sheet.parse (expand ('s' :: '{' :: (Setting.body settings ++ ['}'])))
      = { nodes := ruleOfStyle written, trailing := [] }

/-- Replacing references before the text is cut into declarations and replacing them afterwards
agree, as long as each declaration keeps what it needs. -/
theorem parse_expand_eq_style [Markup.Library] (listed : ∀ setting ∈ settings, setting.Listed)
    (keeps : ∀ setting ∈ settings,
      setting.Keeps (setting.expanded (Setting.scope settings)).value)
    (reference : ∃ setting ∈ settings, setting.value.holdsReference = true) {tag : Tag}
    (other : tag.name ≠ ['p']) (styled : tag.value? styleName = some (Setting.body settings))
    (settable : Markup.isSettable (Setting.body settings) = true) :
    Agree Failure settings tag := by
  have scope : scopeInside [] (definitionsOf tag) = Setting.scope settings := by
    rw [definitionsOf, declarationsOf, styled, Option.getD_some, scopeInside_body listed keeps]
  have walked : resolveTag (noLiveStyle : LiveStyle Failure Id) [] tag
      = (do return (← setStyle tag (remaining settings), Setting.scope settings)) := by
    rw [resolveTag_unrendered]
    simp only [scope, isTouched_body listed keeps styled reference,
      settledOf_body listed keeps styled other, if_true]
  have sheet := Setting.parse_expand_sheet listed keeps reference
  -- The walk removes the style if no regular declaration is left, and expansion the rule.
  by_cases none : remaining settings = []
  · have nothing : Setting.regular settings = [] := by
      rw [remaining, List.map_eq_nil_iff] at none
      rw [regular_eq, none]
      rfl
    refine ⟨tag.drop styleName, Setting.scope settings, ?_, ?_⟩
    · rw [walked, setStyle, none]
      rfl
    · rw [ruleOfStyle, Tag.value?_drop]
      rw [nothing] at sheet
      exact sheet
  · have some : (remaining settings).isEmpty = false := by simpa using none
    have read := parse_write_remaining listed keeps
    have shown : (Setting.regular settings).isEmpty = false := by
      rw [List.isEmpty_eq_false_iff, regular_eq]
      rw [remaining] at none
      simpa using none
    refine ⟨tag.set styleName (write (remaining settings)), Setting.scope settings, ?_, ?_⟩
    · rw [walked, setStyle, some, isSettable_write_remaining listed keeps settable]
      rfl
    · rw [ruleOfStyle, Tag.value?_set]
      dsimp only
      rw [read]
      rw [ruleOf, shown] at sheet
      exact sheet

/-- An element with the list as its style. -/
def bearing (settings : List Setting) : Tag :=
  ⟨['a'], [⟨styleName, some (Setting.body settings)⟩]⟩

/-- Two definitions that refer to each other, a fallback that takes their place in front of a mark,
and a missing name. -/
def circling : List Setting :=
  [⟨"--a".toList, [.reference "--b".toList []], false⟩,
    ⟨"--b".toList, [.reference "--a".toList []], false⟩,
    ⟨"margin".toList, [.reference "--a".toList [.text "1px".toList], .text " !important".toList],
      false⟩,
    ⟨"color".toList, [.reference "--c".toList []], true⟩]

/-- Whether a declaration keeps what it needs can be seen within a depth. -/
theorem keeps_of_within {depth : Nat} {scope : Definitions} {setting : Setting}
    (found : (resolveWithin depth scope [] (Template.render setting.value)).any
      (fun value => decide (setting.Keeps value)) = true) :
    setting.Keeps (setting.expanded scope).value := by
  obtain ⟨value, within, keeps⟩ := (Option.any_eq_true _ _).mp found
  have same : (setting.expanded scope).value = value := resolve_of_within within
  rw [same]
  exact of_decide_eq_true keeps

theorem parse_expand_eq_style_circling :
    Agree Empty circling (bearing circling) ∧
      expand (Setting.sheet circling)
        = r"s { margin: 1px !important; color: var(--c) !important; }".toList := by
  have listed : ∀ setting ∈ circling, setting.Listed := by decide +kernel
  have scope : Setting.scope circling
      = [("--a".toList, "var(--a)".toList), ("--b".toList, "var(--b)".toList)] :=
    @resolveAll_of_within 4 _ _ (by decide +kernel)
  have keeps : ∀ setting ∈ circling,
      setting.Keeps (setting.expanded (Setting.scope circling)).value := by
    have within : ∀ setting ∈ circling,
        (resolveWithin 4 [("--a".toList, "var(--a)".toList), ("--b".toList, "var(--b)".toList)] []
          (Template.render setting.value)).any
            (fun value => decide (setting.Keeps value)) = true := by
      decide +kernel
    rw [scope]
    exact fun setting member => keeps_of_within (within setting member)
  exact ⟨parse_expand_eq_style listed keeps (by decide) (by decide) rfl (by decide),
    @expand_of_within 4 _ _ (by decide +kernel)⟩

/-! ### Lists on which they part -/

/-- What the walk leaves of a style, each value resolved within a depth. -/
def remainingWithin (depth : Nat) (style : Text) : Option (List Declaration) := do
  let declarations := parse style
  let scope ← resolveAllWithin depth (localDefinitions declarations)
  (declarations.filter (!·.isCustom)).mapM fun declaration =>
    (resolveWithin depth scope [] declaration.value).map ({ declaration with value := · })

/-- Whether something in a style is declared or refers. -/
def touches (style : Text) : Bool :=
  !(localDefinitions (parse style)).isEmpty ||
    ((parse style).filter (!·.isCustom)).any (hasReference ·.value)

section within

variable {depth : Nat} {tag : Tag} {style : Text} {left : List Declaration}
  (other : tag.name ≠ ['p']) (styled : tag.value? styleName = some style)
  (found : remainingWithin depth style = some left)
include other styled found

theorem settledOf_of_within :
    settledOf (scopeInside [] (definitionsOf tag)) tag = (left, false) := by
  have declared : declarationsOf tag = parse style := by
    rw [declarationsOf, styled, Option.getD_some]
  obtain ⟨scope, defined, each⟩ := Option.bind_eq_some_iff.mp found
  have own : scopeInside [] (definitionsOf tag) = scope := by
    rw [definitionsOf, declared, scopeInside_nil, resolveAll_of_within defined]
  have values : (regularOf tag).map (resolved scope) = left := by
    rw [regularOf, declared]
    refine map_of_mapM (fun {declaration result} attempt => ?_) each
    obtain ⟨value, within, rfl⟩ := Option.map_eq_some_iff.mp attempt
    rw [resolved, resolve_of_within within]
  rw [own, settledOf, settleMargins, if_neg other, values]

theorem resolveTag_of_within [Markup.Library] (touched : touches style = true) :
    ∃ scope, resolveTag (noLiveStyle : LiveStyle Failure Id) [] tag
      = (do return (← setStyle tag left, scope)) := by
  have declared : declarationsOf tag = parse style := by
    rw [declarationsOf, styled, Option.getD_some]
  have settled := settledOf_of_within other styled found
  have changed : isTouched (scopeInside [] (definitionsOf tag)) tag = true := by
    rw [isTouched, definitionsOf, regularOf, declared, ← touches, touched, Bool.true_or]
  refine ⟨scopeInside [] (definitionsOf tag), ?_⟩
  rw [resolveTag_unrendered]
  simp only [changed, settled, if_true]

end within

/-- Whether the walk fails on the list or leaves another rule than expansion. -/
def parts (depth : Nat) (settings : List Setting) : Bool :=
  touches (Setting.body settings) &&
    (remainingWithin depth (Setting.body settings)).any fun left =>
      (expandWithin depth (Setting.sheet settings)).any fun expanded =>
        !left.isEmpty && (!Markup.isSettable (write left) ||
          Node.writeAll [.rule ['s'] (parse (write left))] != (Sheet.parse expanded).write)

theorem not_agree_of_parts {depth : Nat} (apart : parts depth settings = true) :
    ¬ Agree Failure settings (bearing settings) := by
  rintro ⟨written, scope, walked, read⟩
  simp only [parts, Bool.and_eq_true, Option.any_eq_true, Bool.or_eq_true, Bool.not_eq_true',
    bne_iff_ne] at apart
  obtain ⟨touched, left, found, expanded, whole, some, differs⟩ := apart
  have other : (bearing settings).name ≠ ['p'] := by simp [bearing]
  obtain ⟨inner, same⟩ := @resolveTag_of_within Failure _ _ _ _ other rfl found _ touched
  rw [same, setStyle, some, if_neg (by simp)] at walked
  cases settable : Markup.isSettable (write left) with
  | false =>
    rw [settable] at walked
    exact nomatch walked
  | true =>
    rw [settable] at walked
    obtain rfl : (bearing settings).set styleName (write left) = written :=
      congrArg Prod.fst (Except.ok.inj walked)
    have rule : ruleOfStyle ((bearing settings).set styleName (write left))
        = [.rule ['s'] (parse (write left))] := by
      rw [ruleOfStyle, Tag.value?_set]
    have sheet := expand_of_within whole
    rw [Setting.sheet] at sheet
    rw [sheet, rule] at read
    rcases differs with refused | other
    · exact absurd settable (by rw [refused]; simp)
    · exact other (by rw [read, Sheet.write, List.append_nil])

/-- A list that is read like any other, but differently by expansion and by the walk. -/
structure Strays (settings : List Setting) : Prop where
  listed : ∀ setting ∈ settings, setting.Listed
  reference : ∃ setting ∈ settings, setting.value.holdsReference = true
  apart : ¬ Agree Empty settings (bearing settings)

theorem strays_of_parts {depth : Nat} (listed : ∀ setting ∈ settings, setting.Listed)
    (reference : ∃ setting ∈ settings, setting.value.holdsReference = true)
    (apart : parts depth settings = true) : Strays settings :=
  ⟨listed, reference, not_agree_of_parts apart⟩

/-- One list for each thing that a declaration must keep: a name; a name without comments; a
definition that leaves nothing open without its mark, and one that does not end like a call; a
definition and a value that stay whole; a value without comments; a value beside its mark. At last a
character that no attribute takes. -/
theorem strays_lists :
    Strays [⟨[], [.text ['x']], false⟩, ⟨['c'], [.reference "--q".toList []], false⟩] ∧
    Strays [⟨"a/*".toList, [.text ['x']], false⟩,
      ⟨['c'], [.reference "--q".toList [], .text " */".toList], false⟩] ∧
    Strays [⟨"--a".toList, [.text "x\\ !important".toList], false⟩,
      ⟨['c'], [.reference "--a".toList []], false⟩, ⟨['b'], [.text ['2']], false⟩] ∧
    Strays [⟨"--a".toList, [.text "1var !important".toList], false⟩,
      ⟨"--d".toList, [.reference "--a".toList [], .text "(--b, x\\ )".toList], false⟩,
      ⟨['c'], [.reference "--d".toList []], false⟩, ⟨['e'], [.text ['f']], false⟩] ∧
    Strays [⟨"--a".toList, [.reference "--u".toList [.text "x;b: 2".toList]], false⟩,
      ⟨['c'], [.reference "--q".toList []], false⟩] ∧
    Strays [⟨['c'], [.reference "--u".toList [.text "x;y".toList]], false⟩] ∧
    Strays [⟨"--a".toList, [.text ['/']], false⟩,
      ⟨['c'], [.reference "--a".toList [], .text "* x */ y".toList], false⟩] ∧
    Strays [⟨['c'], [.text "!important".toList], false⟩,
      ⟨['d'], [.reference "--q".toList []], false⟩] ∧
    Strays [⟨['c'], [.text [Char.ofNat 1], .reference "--q".toList []], false⟩] := by
  refine ⟨?_, ?_, ?_, ?_, ?_, ?_, ?_, ?_, ?_⟩
  all_goals
    exact @strays_of_parts _ 4 (by decide +kernel) (by decide +kernel) (by decide +kernel)

end Inline
end ThemeCss
