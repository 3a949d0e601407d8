import ThemeCss.Proofs.Inline.Agreement
import ThemeCss.Proofs.Inline.Margin
import ThemeCss.Proofs.Scan.Components
import ThemeCss.Proofs.Variables.Sheltered

/-!
# Settled declarations read back

The walk writes the declarations that an element keeps side by side and leaves it to the next reader
to cut them apart. Names are in lower case by then and hold nothing that a reader heeds; values
close their strings and parentheses, and so does what comes of them, by resolving and by spreading
margins. Then nothing is swallowed: the declarations are read back exactly when no value has a
semicolon in the open.
-/
namespace ThemeCss

namespace Text

/-- What lowering leaves alone is still there. -/
theorem mem_lowerFrom {before text : Text} {c : Char} (lower : IsLower c) (member : c ∈ text) :
    c ∈ lowerFrom before text := by
  induction text generalizing before with
  | nil => cases member
  | cons d rest ih =>
    rw [lowerFrom]
    rcases List.mem_cons.mp member with rfl | later
    · rw [if_neg (by simpa using lower.1), lower.2]
      exact List.mem_append_left _ (List.mem_singleton_self _)
    · exact List.mem_append_right _ (ih later)

end Text

namespace Scan

/-- Without quotes no string is opened. -/
theorem Mode.quote_after {mode : Mode} (outside : mode.quote = none) {text : Text}
    (free : ∀ c ∈ text, Mode.isQuote c = false) : (mode.after text).quote = none := by
  induction text generalizing mode with
  | nil => exact outside
  | cons c rest ih =>
    rw [List.forall_mem_cons] at free
    refine ih ?_ free.2
    simp only [Mode.step, outside, free.1, Bool.false_eq_true, if_false]
    split
    · rfl
    · split <;> first | rfl | exact outside

/-- A name without quotes, semicolons and parentheses leaves nothing open but a backslash. -/
theorem of_avoids_name {name : Text} (avoids : Text.Avoids [';', '(', ')', '\'', '"'] name) :
    solid 0 .code name = true ∧ nestingAfter 0 .code name = 0 ∧
      (Mode.code.after name).settled = .code := by
  have free {c : Char} (member : c ∈ name) :
      c ≠ Bracket.round.opener ∧ c ≠ Bracket.round.closer := by
    constructor <;> rintro rfl <;> exact avoids _ member (by decide)
  refine ⟨solid_of_free (fun member => avoids _ member (by decide)) 0 .code,
    nestingAfter_of_depth? (Bracket.depth?_of_free 0 .code fun c => free), ?_⟩
  have outside : (Mode.code.after name).quote = none := by
    refine Mode.quote_after rfl fun c member => ?_
    cases quote : Mode.isQuote c with
    | false => rfl
    | true =>
      rcases Mode.eq_of_isQuote quote with rfl | rfl <;> exact absurd (by decide) (avoids _ member)
  rw [Mode.settled, outside]
  rfl

end Scan

namespace Inline

open Scan Sheet Variables

/-! ### Declarations -/

/-- A declaration that leaves nothing open, with no backslash in its value and no importance mark
left there. -/
structure Ordinary (declaration : Declaration) : Prop where
  name : Text.Avoids [';', '(', ')', '\'', '"'] declaration.property
  closed : Closed declaration.value
  balanced : Bracket.round.Balanced declaration.value
  plain : '\\' ∉ declaration.value
  unmarked : '!' ∉ declaration.value

instance (declaration : Declaration) : Decidable (Ordinary declaration) :=
  decidable_of_iff (Text.Avoids [';', '(', ')', '\'', '"'] declaration.property ∧
      Closed declaration.value ∧ Bracket.round.Balanced declaration.value ∧
      '\\' ∉ declaration.value ∧ '!' ∉ declaration.value)
    ⟨fun ⟨name, closed, balanced, plain, unmarked⟩ => ⟨name, closed, balanced, plain, unmarked⟩,
      fun ⟨name, closed, balanced, plain, unmarked⟩ => ⟨name, closed, balanced, plain, unmarked⟩⟩

/-- A value that closes its strings and parentheses, without backslashes and importance marks. -/
structure Tame (value : Text) : Prop extends Rounded value where
  unmarked : '!' ∉ value

/-- The name of a regular property as it is read from a style. -/
structure IsRegularName (name : Text) : Prop where
  nonempty : name ≠ []
  trimmed : Text.Trimmed name
  colonFree : ':' ∉ name
  avoids : Text.Avoids [';', '(', ')', '\'', '"'] name
  lower : Text.lower name = name
  regular : Declaration.isCustomName name = false

theorem isRegularName_side (side : Side) : IsRegularName side.property := by
  cases side <;> exact ⟨by decide, by decide, by decide, by decide, by decide, by decide⟩

/-- A declaration that the walk keeps. -/
structure Kept (declaration : Declaration) : Prop where
  name : IsRegularName declaration.property
  value : Tame declaration.value

theorem Kept.readable {declaration : Declaration} (kept : Kept declaration) :
    Declaration.Readable declaration :=
  ⟨kept.name.nonempty, kept.name.trimmed, kept.name.colonFree, kept.value.nonempty,
    kept.value.trimmed, .inr (Declaration.dropImportant?_of_free kept.value.unmarked)⟩

theorem Kept.lowerProperty {declaration : Declaration} (kept : Kept declaration) :
    lowerProperty declaration = declaration := by
  rw [Inline.lowerProperty, Declaration.isCustom, kept.name.regular, if_neg (by simp),
    kept.name.lower]

/-- A declaration of a style is what a solid part of it reads as, its name in lower case. -/
theorem exists_of_mem_parse {style : Text} {declaration : Declaration}
    (member : declaration ∈ parse style) :
    ∃ chunk, chunk <:+: style ∧ solid 0 .code chunk = true ∧
      (Declaration.parse chunk).isMalformed = false ∧
      declaration = lowerProperty (Declaration.parse chunk) := by
  simp only [parse, List.mem_map, List.mem_filter] at member
  obtain ⟨read, ⟨listed, wellFormed⟩, rfl⟩ := member
  obtain ⟨chunk, inside, uncut, rfl⟩ := Declaration.exists_of_mem_parseAll listed
  exact ⟨chunk, inside, uncut, by simpa using wellFormed, rfl⟩

@[simp] theorem value_lowerProperty (declaration : Declaration) :
    (lowerProperty declaration).value = declaration.value := by
  rw [lowerProperty]
  split <;> rfl

theorem tame_of_mem_parse {style : Text} {declaration : Declaration}
    (member : declaration ∈ parse style) (ordinary : Ordinary declaration) :
    Tame declaration.value := by
  obtain ⟨chunk, _, _, wellFormed, rfl⟩ := exists_of_mem_parse member
  have readable := Declaration.readable_parse wellFormed
  have same := value_lowerProperty (Declaration.parse chunk)
  exact ⟨⟨⟨same ▸ readable.valued, same ▸ readable.value, ordinary.balanced⟩, ordinary.closed,
    ordinary.plain⟩, ordinary.unmarked⟩

theorem kept_of_mem_parse {style : Text} {declaration : Declaration}
    (member : declaration ∈ parse style) (regular : declaration.isCustom = false)
    (ordinary : Ordinary declaration) : Kept declaration := by
  have tame := tame_of_mem_parse member ordinary
  obtain ⟨chunk, _, _, wellFormed, same⟩ := exists_of_mem_parse member
  have readable := Declaration.readable_parse wellFormed
  -- A custom property would have kept its name, so the name was lowered.
  have lowered : declaration.property = Text.lower (Declaration.parse chunk).property := by
    rw [same, lowerProperty] at regular
    rw [same, lowerProperty]
    split
    next custom =>
      rw [if_pos custom, custom] at regular
      cases regular
    next => rfl
  refine ⟨⟨?_, ?_, ?_, ordinary.name, ?_, regular⟩, tame⟩
  · rw [lowered]
    exact Text.lowerFrom_ne_nil [] readable.named
  · rw [lowered]
    exact Text.trimmed_lower readable.property
  · rw [lowered]
    intro held
    rcases Text.mem_or_brought held with written | brought
    · exact readable.colonFree written
    · exact absurd brought (by decide)
  · rw [lowered, Text.lower_lower]

/-! ### Definitions -/

theorem Tame.resolve {definitions : Definitions} (defined : ∀ entry ∈ definitions, Tame entry.2)
    (resolving : List Text) {value : Text} (tame : Tame value) :
    Tame (resolve definitions resolving value) := by
  refine ⟨tame.toRounded.resolve (fun entry member => (defined entry member).toRounded) resolving,
    fun held => ?_⟩
  have letters : ∀ c ∈ ['v', 'a', 'r', '(', ')'], c ≠ '!' := by simp
  refine mem_resolve ?_ letters resolving ?_ '!' held rfl
  · rintro entry member c held rfl
    exact (defined entry member).unmarked held
  · rintro c held rfl
    exact tame.unmarked held

/-- What a property of texts passes to when they are resolved, it passes to inside an element. -/
theorem forall_scopeInside {P : Text → Prop}
    (resolves : ∀ (definitions : Definitions) resolving value, (∀ entry ∈ definitions, P entry.2) →
      P value → P (resolve definitions resolving value))
    {inherited declared : Definitions} (outer : ∀ entry ∈ inherited, P entry.2)
    (inner : ∀ entry ∈ declared, P entry.2) :
    ∀ entry ∈ scopeInside inherited declared, P entry.2 := by
  intro entry member
  rcases Entries.mem_merge member with above | here
  · exact outer entry above
  · obtain ⟨⟨name, value⟩, listed, rfl⟩ := List.mem_map.mp here
    refine resolves _ _ _ ?_ (inner _ listed)
    rw [List.forall_mem_append]
    exact ⟨inner, outer⟩

theorem exists_of_mem_definitionsOf {tag : Tag} {entry : Text × Text}
    (member : entry ∈ definitionsOf tag) :
    ∃ declaration ∈ declarationsOf tag, entry.2 = declaration.value := by
  obtain ⟨declaration, listed, rfl⟩ := List.mem_map.mp (Entries.mem_of_mem_ofList member)
  exact ⟨declaration, (List.mem_filter.mp listed).1, rfl⟩

/-! ### Settled declarations -/

/-- What holds of all declarations and passes to the sides that a shorthand is spread over holds of
the settled ones. -/
theorem forall_settleMargins {P : Declaration → Prop}
    (spreads : ∀ (declaration : Declaration) (side : Side) (part : Text), P declaration →
      part ∈ components declaration.value →
      P { property := side.property, value := part, important := declaration.important })
    (tag : Tag) {declarations : List Declaration}
    (each : ∀ declaration ∈ declarations, P declaration) :
    ∀ declaration ∈ (settleMargins tag declarations).1, P declaration := by
  -- A longhand comes from a shorthand that is spread, or from a declaration of the side itself.
  have longhand : ∀ side, ∀ declaration ∈ longhands side declarations, P declaration := by
    intro side declaration member
    obtain ⟨source, listed, sets⟩ := List.mem_filterMap.mp member
    obtain ⟨value, found, rfl⟩ := Option.map_eq_some_iff.mp sets
    split at found
    · have spread := mem_components_of_mem_spread _ _ (Entries.mem_of_find?_eq_some found)
      exact spreads source side value (each source listed) spread
    · split at found
      next named =>
        obtain rfl : source.value = value := Option.some.inj found
        rw [← named]
        exact each source listed
      next => cases found
  rw [settleMargins]
  split
  · split
    next rewritten rewrites =>
      dsimp only
      rw [eq_of_rewriteMargins? rewrites]
      intro declaration member
      rcases List.mem_append.mp member with kept | set
      · exact each declaration (List.mem_filter.mp kept).1
      · obtain ⟨side, _, last⟩ := List.mem_filterMap.mp set
        exact longhand side declaration (List.mem_of_getLast? last)
    next => exact each
  · exact each

theorem kept_longhand {declaration : Declaration} (side : Side) {part : Text}
    (kept : Kept declaration) (listed : part ∈ components declaration.value) :
    Kept { property := side.property, value := part, important := declaration.important } := by
  obtain ⟨some, trimmed, balanced, closed, inside⟩ :=
    of_mem_components kept.value.plain kept.value.closed kept.value.balanced listed
  exact ⟨isRegularName_side side, ⟨⟨some, trimmed, balanced⟩, closed,
    fun held => kept.value.plain (inside _ held)⟩, fun held => kept.value.unmarked (inside _ held)⟩

/-- The declarations that an element keeps are readable again, resolved and with margins by side. -/
theorem kept_settledOf {scope : Definitions} {tag : Tag}
    (defined : ∀ entry ∈ scope, Tame entry.2)
    (ordinary : ∀ declaration ∈ declarationsOf tag, Ordinary declaration) :
    ∀ declaration ∈ (settledOf scope tag).1, Kept declaration := by
  refine forall_settleMargins (fun _ side _ => kept_longhand side) tag ?_
  rw [List.forall_mem_map]
  intro declaration member
  obtain ⟨listed, regular⟩ := List.mem_filter.mp member
  have kept := kept_of_mem_parse listed (by simpa using regular) (ordinary declaration listed)
  exact ⟨kept.name, kept.value.resolve defined []⟩

/-! ### Reading back -/

theorem whole_write_of_kept {declaration : Declaration} (kept : Kept declaration)
    (uncut : solid 0 .code declaration.value = true) : Whole declaration.write := by
  obtain ⟨solidName, level, settled⟩ := of_avoids_name kept.name.avoids
  have sound := Mode.sound_code.after declaration.property
  have inert : ∀ c ∈ [':', ' '], isInert c = true := List.all_eq_true.mp rfl
  -- The colon and the blank take a backslash that the name leaves pending.
  have name : Whole (declaration.property ++ [':', ' ']) := by
    refine ⟨?_, ?_, ?_⟩
    · rw [solid_append, solidName, solid_of_inert inert]
      rfl
    · rw [nestingAfter_append, nestingAfter_of_inert inert, level]
    · rw [Closed, Mode.after_append, sound.after_ordinary
        (fun c member => isOrdinary_of_isInert (inert c member)) (by simp), settled]
  have value : Whole declaration.value :=
    ⟨uncut, nestingAfter_of_balanced kept.value.balanced, kept.value.closed⟩
  have whole := name.append (Declaration.whole_value_append value declaration.important)
  rw [Declaration.write_of_wellFormed kept.readable.wellFormed]
  rwa [List.append_assoc] at whole

/-- A value that is read from a style has no semicolon in the open. -/
theorem solid_of_mem_parse {style : Text} {declaration : Declaration}
    (member : declaration ∈ parse style)
    (avoids : Text.Avoids [';', '(', ')', '\'', '"'] declaration.property) :
    solid 0 .code declaration.value = true := by
  obtain ⟨chunk, _, uncut, wellFormed, rfl⟩ := exists_of_mem_parse member
  rw [value_lowerProperty]
  rcases Declaration.colon_cases chunk with free | ⟨name, rest, free, rfl⟩
  · rw [Declaration.parse_of_colonFree free]
    rfl
  · have property := (Declaration.parse_colon_cases free rest).1
    -- What a scan heeds has no case, so the name held nothing of it before it was lowered.
    have before : Text.Avoids [';', '(', ')', '\'', '"'] (Text.trim name) := by
      intro c held
      rw [lowerProperty] at avoids
      split at avoids
      · exact avoids c (property ▸ held)
      · intro listed
        have lower : Text.IsLower c := by
          simp only [List.mem_cons, List.not_mem_nil, or_false] at listed
          rcases listed with rfl | rfl | rfl | rfl | rfl <;> exact ⟨by decide, by decide⟩
        exact avoids c (Text.mem_lowerFrom lower (property ▸ held)) listed
    obtain ⟨_, level, settled⟩ := of_avoids_name before
    have value := Declaration.solid_value free uncut
    rwa [level, settled] at value

/-- Settled declarations are read back from the style they are written to exactly when no value has
a semicolon in the open. -/
theorem parse_write_iff {declarations : List Declaration}
    (kept : ∀ declaration ∈ declarations, Kept declaration) :
    parse (write declarations) = declarations ↔
      ∀ declaration ∈ declarations, solid 0 .code declaration.value = true := by
  constructor
  · intro read declaration member
    exact solid_of_mem_parse (by rwa [read]) (kept declaration member).name.avoids
  · intro uncut
    apply parse_write_of_readable
    · exact fun declaration member => (kept declaration member).readable
    · exact fun declaration member => (kept declaration member).lowerProperty
    · exact fun declaration member =>
        whole_write_of_kept (kept declaration member) (uncut declaration member)

end Inline
end ThemeCss
