import ThemeCss.Proofs.Inline.Scope
import ThemeCss.Proofs.Inline.Settled
import ThemeCss.Proofs.Text.Failure

/-!
# Styles rewritten in place

The walk over a tree of elements changes their styles and nothing else. Each element is settled in
its own scope, and what it is settled to does not depend on how the elements around it are written.
The walk comes through unless a new style holds a character that no attribute takes, and brings in
no such character itself.
-/
namespace ThemeCss

namespace Tag

theorem drop_drop (tag : Tag) (name : Text) : (tag.drop name).drop name = tag.drop name := by
  simp [drop, List.filter_filter]

theorem drop_set (tag : Tag) (name value : Text) :
    (tag.set name value).drop name = tag.drop name := by
  rw [set]
  split
  · -- Only the attribute that is dropped has changed.
    have kept : ∀ entry ∈ tag.attributes.filter (·.name != name), (if entry.name = name then
        { entry with value := some value } else entry : Attribute) = id entry := by
      intro entry member
      have other : entry.name ≠ name := by simpa using (List.mem_filter.mp member).2
      rw [if_neg other, id]
    have names : ((fun entry : Attribute => entry.name != name) ∘ fun entry : Attribute =>
        if entry.name = name then { entry with value := some value } else entry)
        = (·.name != name) := by
      funext entry
      rw [Function.comp]
      split <;> rfl
    rw [drop, drop, List.filter_map, names, List.map_congr_left kept, List.map_id]
  · simp [drop]

end Tag

namespace Inline

open Scan Sheet Variables

variable {Failure : Type}

/-! ### Elements of a tree -/

mutual

/-- The tags of the elements, in document order. -/
def tagsIn : Markup → List Tag
  | .element tag children => tag :: tagsInAll children
  | _ => []

def tagsInAll : List Markup → List Tag
  | [] => []
  | markup :: forest => tagsIn markup ++ tagsInAll forest

end

mutual

/-- The same with the definitions that hold inside each element. -/
def placesIn (inherited : Definitions) : Markup → List (Definitions × Tag)
  | .element tag children =>
    let scope := scopeInside inherited (definitionsOf tag)
    (scope, tag) :: placesInAll scope children
  | _ => []

def placesInAll (inherited : Definitions) : List Markup → List (Definitions × Tag)
  | [] => []
  | markup :: forest => placesIn inherited markup ++ placesInAll inherited forest

end

mutual

/-- The tree without its styles. -/
def unstyled : Markup → Markup
  | .element tag children => .element (tag.drop styleName) (unstyledAll children)
  | markup => markup

def unstyledAll : List Markup → List Markup
  | [] => []
  | markup :: forest => unstyled markup :: unstyledAll forest

end

mutual

/-- The definitions inside the elements have what the values declared in them have, if resolving
keeps it. -/
theorem forall_placesIn {P : Text → Prop}
    (resolves : ∀ (definitions : Definitions) resolving value, (∀ entry ∈ definitions, P entry.2) →
      P value → P (resolve definitions resolving value)) : {markup : Markup} →
    {inherited : Definitions} → (outer : ∀ entry ∈ inherited, P entry.2) →
    (inner : ∀ tag ∈ tagsIn markup, ∀ declaration ∈ declarationsOf tag, P declaration.value) →
    ∀ place ∈ placesIn inherited markup, place.2 ∈ tagsIn markup ∧ ∀ entry ∈ place.1, P entry.2
  | .text _, _, _, _ => by simp [placesIn]
  | .comment _, _, _, _ => by simp [placesIn]
  | .element tag children, inherited, outer, inner => by
    rw [tagsIn, List.forall_mem_cons] at inner
    have scope : ∀ entry ∈ scopeInside inherited (definitionsOf tag), P entry.2 := by
      refine forall_scopeInside resolves outer fun entry member => ?_
      obtain ⟨declaration, listed, same⟩ := exists_of_mem_definitionsOf member
      rw [same]
      exact inner.1 declaration listed
    intro place member
    rw [placesIn] at member
    rw [tagsIn]
    rcases List.mem_cons.mp member with rfl | below
    · exact ⟨List.mem_cons_self .., scope⟩
    · exact (forall_placesInAll resolves scope inner.2 place below).imp_left
        (List.mem_cons_of_mem tag)

theorem forall_placesInAll {P : Text → Prop}
    (resolves : ∀ (definitions : Definitions) resolving value, (∀ entry ∈ definitions, P entry.2) →
      P value → P (resolve definitions resolving value)) : {forest : List Markup} →
    {inherited : Definitions} → (outer : ∀ entry ∈ inherited, P entry.2) →
    (inner : ∀ tag ∈ tagsInAll forest, ∀ declaration ∈ declarationsOf tag, P declaration.value) →
    ∀ place ∈ placesInAll inherited forest,
      place.2 ∈ tagsInAll forest ∧ ∀ entry ∈ place.1, P entry.2
  | [], _, _, _ => by simp [placesInAll]
  | markup :: forest, inherited, outer, inner => by
    rw [tagsInAll, List.forall_mem_append] at inner
    intro place member
    rw [placesInAll] at member
    rw [tagsInAll]
    rcases List.mem_append.mp member with first | later
    · exact (forall_placesIn resolves outer inner.1 place first).imp_left
        (List.mem_append_left _)
    · exact (forall_placesInAll resolves outer inner.2 place later).imp_left
        (List.mem_append_right _)

end

/-! ### What is left of a style -/

/-- Nothing in the style of the element is the walk's business: no custom property, no reference
and, in a paragraph, no margin. -/
def Idle (tag : Tag) : Prop :=
  ∀ declaration ∈ declarationsOf tag, declaration.isCustom = false ∧
    hasReference declaration.value = false ∧
    (tag.name = ['p'] → setsNothing declaration = true)

instance (tag : Tag) : Decidable (Idle tag) := inferInstanceAs (Decidable (∀ _ ∈ _, _))

/-- An idle element keeps its tag. Any other loses its style if no declaration is left, and has the
declarations that are left in its new style unless a value cuts it. -/
structure Rewritten (scope : Definitions) (tag other : Tag) : Prop where
  idle : Idle tag → other = tag
  dropped : ¬ Idle tag → (other.value? styleName = none ↔ (settledOf scope tag).1 = [])
  reread : ¬ Idle tag → (declarationsOf other = (settledOf scope tag).1 ↔
    ∀ declaration ∈ (settledOf scope tag).1, solid 0 .code declaration.value = true)

theorem settleMargins_still_iff {tag : Tag} {declarations : List Declaration} :
    (settleMargins tag declarations).2 = false ↔
      (tag.name = ['p'] → ∀ declaration ∈ declarations, setsNothing declaration = true) := by
  rw [settleMargins, ← rewriteMargins?_eq_none_iff]
  split
  next paragraph =>
    split
    next rewritten rewrites => simp [paragraph, rewrites]
    next keeps => simp [keeps]
  next other => simp [other]

/-- The walk touches the elements that are not idle, in any scope. -/
theorem isTouched_eq_false_iff {scope : Definitions} {tag : Tag} :
    isTouched scope tag = false ↔ Idle tag := by
  have definitions : (definitionsOf tag).isEmpty = true ↔
      ∀ declaration ∈ declarationsOf tag, declaration.isCustom = false := by
    constructor
    · intro none declaration member
      rw [← Bool.not_eq_true]
      intro custom
      have defined := mem_definitionsOf.mpr ⟨declaration, member, custom, rfl⟩
      simp [List.isEmpty_iff.mp none] at defined
    · intro regular
      have none : (declarationsOf tag).filter (·.isCustom) = [] := by
        rw [List.filter_eq_nil_iff]
        exact fun declaration member => by simp [regular declaration member]
      rw [definitionsOf, localDefinitions, none]
      rfl
  rw [isTouched, Bool.or_eq_false_iff, Bool.or_eq_false_iff, Bool.not_eq_false', definitions,
    and_assoc]
  -- Without custom properties and references the values stay as they are.
  have settled (regular : ∀ declaration ∈ declarationsOf tag, declaration.isCustom = false) :
      (regularOf tag).any (hasReference ·.value) = false ∧ (settledOf scope tag).2 = false ↔
        ∀ declaration ∈ declarationsOf tag, hasReference declaration.value = false ∧
          (tag.name = ['p'] → setsNothing declaration = true) := by
    have whole : regularOf tag = declarationsOf tag := by
      rw [regularOf, List.filter_eq_self]
      exact fun declaration member => by simp [regular declaration member]
    have same (free : ∀ declaration ∈ declarationsOf tag, hasReference declaration.value = false) :
        (declarationsOf tag).map (resolved scope) = declarationsOf tag := by
      have each : ∀ declaration ∈ declarationsOf tag,
          resolved scope declaration = id declaration := by
        intro declaration member
        rw [resolved, resolve_of_referenceFree (free declaration member), id]
      rw [List.map_congr_left each, List.map_id]
    rw [settledOf, whole, List.any_eq_false]
    constructor
    · rintro ⟨free, still⟩ declaration member
      have free : ∀ declaration ∈ declarationsOf tag, hasReference declaration.value = false := by
        simpa using free
      rw [same free, settleMargins_still_iff] at still
      exact ⟨free declaration member, fun paragraph => still paragraph declaration member⟩
    · intro each
      have free := fun declaration member => (each declaration member).1
      refine ⟨by simpa using free, ?_⟩
      rw [same free, settleMargins_still_iff]
      exact fun paragraph declaration member => (each declaration member).2 paragraph
  constructor
  · rintro ⟨regular, others⟩ declaration member
    exact ⟨regular declaration member, (settled regular).mp others declaration member⟩
  · intro idle
    have regular := fun declaration member => (idle declaration member).1
    exact ⟨regular, (settled regular).mpr fun declaration member => (idle declaration member).2⟩

/-- No value is cut by a semicolon if none of the values declared is, their fallbacks included. -/
theorem solid_settledOf {scope : Definitions} {tag : Tag}
    (defined : ∀ entry ∈ scope, Tame entry.2 ∧ Deeply Sheltered entry.2)
    (ordinary : ∀ declaration ∈ declarationsOf tag, Ordinary declaration)
    (deep : ∀ declaration ∈ declarationsOf tag, Deeply Sheltered declaration.value) :
    ∀ declaration ∈ (settledOf scope tag).1, solid 0 .code declaration.value = true := by
  have both : ∀ declaration ∈ (settledOf scope tag).1,
      '\\' ∉ declaration.value ∧ solid 0 .code declaration.value = true := by
    refine forall_settleMargins ?_ tag ?_
    · rintro declaration side part ⟨plain, uncut⟩ listed
      exact ⟨fun held => plain (mem_of_mem_components listed _ held),
        solid_of_mem_components plain uncut listed⟩
    · rw [List.forall_mem_map]
      intro declaration member
      have listed := (List.mem_filter.mp member).1
      have tame := tame_of_mem_parse listed (ordinary declaration listed)
      have tames : ∀ entry ∈ scope, Tame entry.2 := fun entry member => (defined entry member).1
      have rounded : ∀ entry ∈ scope, Rounded entry.2 ∧ Deeply Sheltered entry.2 :=
        fun entry member => ⟨(defined entry member).1.toRounded, (defined entry member).2⟩
      exact ⟨(tame.resolve tames []).plain,
        ((deep declaration listed).resolve rounded [] tame.toRounded).here.uncut⟩
  exact fun declaration member => (both declaration member).2

section library

variable [Markup.Library]

/-- The new style of an element holds a character that no attribute takes. -/
def Refused (scope : Definitions) (tag : Tag) : Prop :=
  isTouched scope tag = true ∧ Markup.isSettable (write (settledOf scope tag).1) = false

/-- The walk leaves an element with this tag. -/
def Settles (Failure : Type) (scope : Definitions) (tag other : Tag) : Prop :=
  if isTouched scope tag then
    (setStyle tag (settledOf scope tag).1 : Walk Failure Id Tag) = pure other
  else other = tag

/-! ### One element -/

theorem setStyle_cases {tag other : Tag} {settled : List Declaration}
    (set : (setStyle tag settled : Walk Failure Id Tag) = pure other) :
    settled = [] ∧ other = tag.drop styleName ∨
      settled ≠ [] ∧ other = tag.set styleName (write settled) := by
  rw [setStyle] at set
  split at set
  next none =>
    exact .inl ⟨by simpa using none, (Except.ok.inj set).symm⟩
  next some =>
    split at set
    · exact .inr ⟨by simpa using some, (Except.ok.inj set).symm⟩
    · cases set

theorem failsIff_setStyle (tag : Tag) (settled : List Declaration) :
    FailsIff .forbiddenCharacter (Markup.isSettable (write settled) = false)
      (setStyle tag settled : Walk Failure Id Tag) := by
  rw [setStyle]
  split
  next none =>
    have empty : settled = [] := by simpa using none
    have settable : Markup.isSettable (write settled) = true := by rw [empty]; rfl
    exact (FailsIff.returned _).congr (by simp [settable])
  next =>
    split
    next settable => exact (FailsIff.returned _).congr (by simp [settable])
    next refused => exact ⟨fun _ => rfl, fun settable => absurd (by simpa using refused) settable⟩

section bind

variable {α β : Type} {cause : StyleError Failure} {p q : Prop} {first : Walk Failure Id α}

/-- Two steps of a walk fail as two attempts do. -/
theorem failsIff_bind {rest : α → Walk Failure Id β} (fails : FailsIff cause p first)
    (later : ∀ value, first = pure value → FailsIff cause q (rest value)) :
    FailsIff cause (p ∨ q) (first >>= rest : Walk Failure Id β) := by
  have same : (first >>= rest : Walk Failure Id β) = Except.bind first rest := by
    cases first <;> rfl
  rw [same]
  exact fails.bind later

theorem failsIff_map (fails : FailsIff cause p first) (f : α → β) :
    FailsIff cause p (first >>= fun value => pure (f value) : Walk Failure Id β) :=
  (failsIff_bind fails fun value _ => FailsIff.returned (f value)).congr (or_iff_left id).symm

end bind

theorem failsIff_resolveTag (inherited : Definitions) (tag : Tag) :
    FailsIff .forbiddenCharacter (Refused (scopeInside inherited (definitionsOf tag)) tag)
      (resolveTag noLiveStyle inherited tag : Walk Failure Id (Tag × Definitions)) := by
  rw [resolveTag_unrendered]
  dsimp only
  split
  next touched =>
    exact (failsIff_map (failsIff_setStyle tag _) _).congr (by simp [Refused, touched])
  next untouched => exact (FailsIff.returned _).congr (by simp [Refused, untouched])

/-! ### The whole tree -/

mutual

theorem failsIff_resolveMarkup (inherited : Definitions) : (markup : Markup) →
    FailsIff .forbiddenCharacter (∃ place ∈ placesIn inherited markup, Refused place.1 place.2)
      (resolveMarkup noLiveStyle inherited markup : Walk Failure Id Markup)
  | .text _ => (FailsIff.returned _).congr (by simp [placesIn])
  | .comment _ => (FailsIff.returned _).congr (by simp [placesIn])
  | .element tag children => by
    rw [resolveMarkup, placesIn]
    refine (failsIff_bind (failsIff_resolveTag inherited tag) ?_).congr
      (List.exists_mem_cons_iff ..)
    rintro ⟨other, inner⟩ settled
    obtain rfl := (of_resolveTag settled).1
    exact failsIff_map (failsIff_resolveForest _ children) _

theorem failsIff_resolveForest (inherited : Definitions) : (forest : List Markup) →
    FailsIff .forbiddenCharacter (∃ place ∈ placesInAll inherited forest, Refused place.1 place.2)
      (resolveForest noLiveStyle inherited forest : Walk Failure Id (List Markup))
  | [] => (FailsIff.returned _).congr (by simp [placesInAll])
  | markup :: forest => by
    rw [resolveForest, placesInAll]
    refine (failsIff_bind (failsIff_resolveMarkup inherited markup) fun _ _ =>
      failsIff_map (failsIff_resolveForest inherited forest) _).congr ?_
    simp [or_and_right, exists_or]

end

/-! ### The tree afterwards -/

theorem rewritten_of_settles {scope : Definitions} {tag other : Tag}
    (defined : ∀ entry ∈ scope, Tame entry.2)
    (ordinary : ∀ declaration ∈ declarationsOf tag, Ordinary declaration)
    (settles : Settles Failure scope tag other) : Rewritten scope tag other := by
  rw [Settles] at settles
  split at settles
  next touched =>
    have busy : ¬ Idle tag := by
      rw [← @isTouched_eq_false_iff scope, touched]
      simp
    rcases setStyle_cases settles with ⟨none, rfl⟩ | ⟨some, rfl⟩
    · have gone : declarationsOf (tag.drop styleName) = [] := by
        rw [declarationsOf, Tag.value?_drop]
        rfl
      refine ⟨fun idle => absurd idle busy, fun _ => ?_, fun _ => ?_⟩
      · simp [none, Tag.value?_drop]
      · simp [none, gone]
    · have written : declarationsOf (tag.set styleName (write (settledOf scope tag).1))
          = parse (write (settledOf scope tag).1) := by
        rw [declarationsOf, Tag.value?_set, Option.getD_some]
      refine ⟨fun idle => absurd idle busy, fun _ => ?_, fun _ => ?_⟩
      · simp [some, Tag.value?_set]
      · rw [written]
        exact parse_write_iff (kept_settledOf defined ordinary)
  next untouched =>
    have idle : Idle tag := isTouched_eq_false_iff.mp (by simpa using untouched)
    exact ⟨fun _ => settles, fun busy => absurd idle busy, fun busy => absurd idle busy⟩

theorem unstyled_of_settles {scope : Definitions} {tag other : Tag}
    (settles : Settles Failure scope tag other) : other.drop styleName = tag.drop styleName := by
  rw [Settles] at settles
  split at settles
  · rcases setStyle_cases settles with ⟨_, rfl⟩ | ⟨_, rfl⟩
    · exact Tag.drop_drop ..
    · exact Tag.drop_set ..
  · rw [settles]

mutual

/-- The walk keeps the tree and settles each element in its scope. -/
theorem settles_markup : {markup : Markup} → {inherited : Definitions} → {after : Markup} →
    (walked : (resolveMarkup noLiveStyle inherited markup : Walk Failure Id Markup) = pure after) →
    unstyled after = unstyled markup ∧
      List.Forall₂ (fun place other => Settles Failure place.1 place.2 other)
        (placesIn inherited markup) (tagsIn after)
  | .text _, _, _, walked => by
    obtain rfl := Except.ok.inj walked
    exact ⟨rfl, .nil⟩
  | .comment _, _, _, walked => by
    obtain rfl := Except.ok.inj walked
    exact ⟨rfl, .nil⟩
  | .element tag children, inherited, after, walked => by
    rw [resolveMarkup] at walked
    obtain ⟨⟨other, inner⟩, here, walked⟩ := exists_of_bind walked
    obtain ⟨others, behind, walked⟩ := exists_of_bind walked
    obtain rfl := Except.ok.inj walked
    obtain ⟨rfl, settles⟩ := of_resolveTag here
    obtain ⟨same, below⟩ := settles_forest behind
    refine ⟨?_, .cons settles below⟩
    rw [unstyled, unstyled, same, unstyled_of_settles settles]

theorem settles_forest : {forest : List Markup} → {inherited : Definitions} →
    {after : List Markup} →
    (walked : (resolveForest noLiveStyle inherited forest : Walk Failure Id (List Markup))
      = pure after) →
    unstyledAll after = unstyledAll forest ∧
      List.Forall₂ (fun place other => Settles Failure place.1 place.2 other)
        (placesInAll inherited forest) (tagsInAll after)
  | [], _, _, walked => by
    obtain rfl := Except.ok.inj walked
    exact ⟨rfl, .nil⟩
  | markup :: forest, inherited, after, walked => by
    rw [resolveForest] at walked
    obtain ⟨first, here, walked⟩ := exists_of_bind walked
    obtain ⟨rest, behind, walked⟩ := exists_of_bind walked
    obtain rfl := Except.ok.inj walked
    obtain ⟨same, settles⟩ := settles_markup here
    obtain ⟨alike, others⟩ := settles_forest behind
    exact ⟨by rw [unstyledAll, unstyledAll, same, alike], List.rel_append settles others⟩

end

/-! ### Characters -/

theorem allows_of_brought {c : Char} (brought : Text.Brought c) :
    Markup.Library.allows c = true := by
  have beyond := brought.beyond
  have low : 0x20 ≤ c.toNat := by omega
  exact Markup.Library.allows_of_isAllowed (by simp [Markup.isAllowed, low, brought.assigned])

theorem allows_of_mem_parse {style : Text} (settable : Markup.isSettable style = true)
    {declaration : Declaration} (member : declaration ∈ parse style) {c : Char}
    (held : c ∈ declaration.property ∨ c ∈ declaration.value) : Markup.Library.allows c = true := by
  have allowed : ∀ c ∈ style, Markup.Library.allows c = true := List.all_eq_true.mp settable
  obtain ⟨chunk, inside, _, _, rfl⟩ := exists_of_mem_parse member
  rw [value_lowerProperty] at held
  have written (held : c ∈ (Declaration.parse chunk).property) : Markup.Library.allows c = true :=
    allowed c (inside.subset ((Declaration.property_inside chunk).subset held))
  rcases held with inName | inValue
  · rw [lowerProperty] at inName
    split at inName
    · exact written inName
    · rcases Text.mem_or_brought inName with held | brought
      · exact written held
      · exact allows_of_brought brought
  · exact allowed c (inside.subset ((Declaration.value_inside chunk).subset inValue))

/-- Resolving writes calls with characters that can be set. -/
theorem allows_of_mem_call : ∀ c ∈ ['v', 'a', 'r', '(', ')'], Markup.Library.allows c = true :=
  List.all_eq_true.mp (isSettable_of_isAllowed (by decide))

/-- Resolving and spreading margins bring in no character that an attribute does not take. -/
theorem isSettable_settledOf {scope : Definitions} {tag : Tag}
    (defined : ∀ entry ∈ scope, ∀ c ∈ entry.2, Markup.Library.allows c = true)
    (settable : Markup.isSettable ((tag.value? styleName).getD []) = true) :
    Markup.isSettable (write (settledOf scope tag).1) = true := by
  refine isSettable_write (forall_settleMargins ?_ tag ?_)
  · rintro declaration side part allowed listed c (inName | inPart)
    · have sides : ∀ side : Side, Markup.isSettable side.property = true := by
        intro side
        cases side <;> exact isSettable_of_isAllowed (by decide)
      exact List.all_eq_true.mp (sides side) c inName
    · exact allowed c (.inr (mem_of_mem_components listed c inPart))
  · rw [List.forall_mem_map]
    rintro declaration member c (inName | inValue)
    · exact allows_of_mem_parse settable (List.mem_filter.mp member).1 (.inl inName)
    · exact mem_resolve defined allows_of_mem_call [] (fun c held =>
        allows_of_mem_parse settable (List.mem_filter.mp member).1 (.inr held)) c inValue

/-- The walk over a tree whose declarations leave nothing open comes through if every new style can
be set, and that is so if every old one could. It keeps the tree and the idle elements; each other
element has the declarations that are left of its style, resolved in its scope, unless a semicolon
came into the open in one of them. That cannot happen where the values declared, fallbacks included,
have no semicolon in the open and no text in them ends in the start of a call. -/
theorem resolveMarkup_rewrites {markup : Markup}
    (ordinary : ∀ tag ∈ tagsIn markup, ∀ declaration ∈ declarationsOf tag, Ordinary declaration) :
    FailsIff .forbiddenCharacter (∃ place ∈ placesIn [] markup, Refused place.1 place.2)
      (resolveMarkup noLiveStyle [] markup : Walk Failure Id Markup) ∧
    ((∀ tag ∈ tagsIn markup, Markup.isSettable ((tag.value? styleName).getD []) = true) →
      ¬ ∃ place ∈ placesIn [] markup, Refused place.1 place.2) ∧
    (∀ after, (resolveMarkup noLiveStyle [] markup : Walk Failure Id Markup) = pure after →
      unstyled after = unstyled markup ∧
      List.Forall₂ (fun place other => Rewritten place.1 place.2 other) (placesIn [] markup)
        (tagsIn after)) ∧
    ((∀ tag ∈ tagsIn markup, ∀ declaration ∈ declarationsOf tag,
        Deeply Sheltered declaration.value) →
      ∀ place ∈ placesIn [] markup, ∀ declaration ∈ (settledOf place.1 place.2).1,
        solid 0 .code declaration.value = true) := by
  have tame : ∀ tag ∈ tagsIn markup, ∀ declaration ∈ declarationsOf tag, Tame declaration.value :=
    fun tag member declaration listed =>
      tame_of_mem_parse listed (ordinary tag member declaration listed)
  refine ⟨failsIff_resolveMarkup [] markup, ?_, ?_, ?_⟩
  · rintro settable ⟨place, member, _, refused⟩
    have each : ∀ place ∈ placesIn [] markup, place.2 ∈ tagsIn markup ∧
        ∀ entry ∈ place.1, ∀ c ∈ entry.2, Markup.Library.allows c = true :=
      forall_placesIn (P := fun text => ∀ c ∈ text, Markup.Library.allows c = true)
        (fun _ resolving _ defined => mem_resolve defined allows_of_mem_call resolving) (by simp)
        fun tag stands declaration listed c held =>
          allows_of_mem_parse (settable tag stands) listed (.inr held)
    obtain ⟨stands, defined⟩ := each place member
    rw [isSettable_settledOf defined (settable _ stands)] at refused
    cases refused
  · intro after walked
    obtain ⟨same, settles⟩ := settles_markup walked
    have each : ∀ place ∈ placesIn [] markup, place.2 ∈ tagsIn markup ∧
        ∀ entry ∈ place.1, Tame entry.2 :=
      forall_placesIn (fun _ resolving _ defined => Tame.resolve defined resolving) (by simp) tame
    exact ⟨same, ((List.forall₂_and_left _ _).mpr ⟨each, settles⟩).imp
      fun place other ⟨⟨stands, defined⟩, settled⟩ =>
        rewritten_of_settles defined (ordinary _ stands) settled⟩
  · intro deep place member
    have each : ∀ place ∈ placesIn [] markup, place.2 ∈ tagsIn markup ∧
        ∀ entry ∈ place.1, Tame entry.2 ∧ Deeply Sheltered entry.2 := by
      refine forall_placesIn (P := fun text => Tame text ∧ Deeply Sheltered text) ?_ (by simp)
        fun tag stands declaration listed =>
          ⟨tame tag stands declaration listed, deep tag stands declaration listed⟩
      intro definitions resolving value defined ⟨rounded, sheltered⟩
      have rounds : ∀ entry ∈ definitions, Rounded entry.2 ∧ Deeply Sheltered entry.2 :=
        fun entry member => ⟨(defined entry member).1.toRounded, (defined entry member).2⟩
      exact ⟨rounded.resolve (fun entry member => (defined entry member).1) resolving,
        sheltered.resolve rounds resolving rounded.toRounded⟩
    obtain ⟨stands, defined⟩ := each place member
    exact solid_settledOf defined (ordinary _ stands) (deep _ stands)

end library

/-- A paragraph in a division, with a margin that refers to the custom property around it. -/
def nested : Markup :=
  .element ⟨"div".toList, [⟨styleName, some "--gap: 2px; color: var(--u, red)".toList⟩]⟩
    [.comment "c".toList,
      .element ⟨"p".toList, [⟨styleName, some "margin: var(--gap) 1px; content: ';'".toList⟩]⟩
        [.text "t".toList],
      .element ⟨"b".toList, [⟨styleName, some "COLOR: red".toList⟩]⟩ []]

theorem resolveMarkup_rewrites_nested :
    (∀ tag ∈ tagsIn nested, ∀ declaration ∈ declarationsOf tag, Ordinary declaration) ∧
    ∃ after, (resolveMarkup noLiveStyle [] nested : Walk Empty Id Markup) = pure after ∧
      unstyled after = unstyled nested ∧
      List.Forall₂ (fun place other => Rewritten place.1 place.2 other) (placesIn [] nested)
        (tagsIn after) ∧
      ∀ place ∈ placesIn [] nested, ∀ declaration ∈ (settledOf place.1 place.2).1,
        solid 0 .code declaration.value = true := by
  have ordinary : ∀ tag ∈ tagsIn nested, ∀ declaration ∈ declarationsOf tag,
      Ordinary declaration := by decide +kernel
  obtain ⟨fails, settable, rewrites, uncut⟩ := @resolveMarkup_rewrites Empty _ nested ordinary
  obtain ⟨after, walked⟩ := fails.ok (settable (by decide +kernel))
  obtain ⟨same, settled⟩ := rewrites after walked
  refine ⟨ordinary, after, walked, same, settled, uncut ?_⟩
  have red : Deeply Sheltered "red".toList := deeply_of_plain (by decide +kernel) rfl
  have guarded : Deeply Sheltered "var(--u, red)".toList := by
    have parts : pieces "var(--u, red)".toList
        = [.text [], .call "var(".toList "--u, red".toList, .text []] := by decide +kernel
    have given : calledFallback? "--u, red".toList = some "red".toList := by decide +kernel
    refine deeply_of_fits (by decide +kernel) ?_
    rw [parts]
    simp only [List.forall_mem_cons, Fits, given, Option.some.injEq, forall_eq']
    exact ⟨rfl, red, rfl, by simp⟩
  have bare : Deeply Sheltered "var(--gap) 1px".toList := by
    have parts : pieces "var(--gap) 1px".toList
        = [.text [], .call "var(".toList "--gap".toList, .text " 1px".toList] := by decide +kernel
    have none : calledFallback? "--gap".toList = none := by decide +kernel
    refine deeply_of_fits (by decide +kernel) ?_
    rw [parts]
    simp only [List.forall_mem_cons, Fits, none]
    exact ⟨rfl, by simp, by decide +kernel, by simp⟩
  have values : ((tagsIn nested).flatMap declarationsOf).map (·.value)
      = ["2px".toList, "var(--u, red)".toList, "var(--gap) 1px".toList, "';'".toList,
          "red".toList] := by decide +kernel
  intro tag member declaration listed
  have among := List.mem_map_of_mem (f := (·.value)) (List.mem_flatMap.mpr ⟨tag, member, listed⟩)
  rw [values] at among
  simp only [List.mem_cons, List.not_mem_nil, or_false] at among
  rcases among with same | same | same | same | same <;> rw [same]
  · exact deeply_of_plain (by decide +kernel) rfl
  · exact guarded
  · exact bare
  · exact deeply_of_plain (by decide +kernel) rfl
  · exact red

/-- An element by itself is resolved as its tag is. -/
theorem resolveMarkup_of_within [Markup.Library] {depth : Nat} {tag : Tag} {style : Text}
    {left : List Declaration}
    (other : tag.name ≠ ['p']) (styled : tag.value? styleName = some style)
    (touched : touches style = true) (found : remainingWithin depth style = some left) :
    (resolveMarkup noLiveStyle [] (.element tag []) : Walk Failure Id Markup)
      = do return .element (← setStyle tag left) [] := by
  obtain ⟨scope, same⟩ := @resolveTag_of_within Failure _ _ _ _ other styled found _ touched
  rw [resolveMarkup, same]
  simp [resolveForest]

/-- Resolved, the second custom property is a call that is resolved again where it is used. -/
def joining : Tag :=
  ⟨"div".toList,
    [⟨styleName, some "--r: r(--z, x;b: 2); --c: vavar(--r); color: var(--c)".toList⟩]⟩

/-- A style with a control character, as a reference to it leaves one. -/
def controlled : Text := "color: '".toList ++ Char.ofNat 1 :: "'; margin: var(--u)".toList

/-- What stands in this style is no declaration. -/
def chunked : Tag := ⟨"b".toList, [⟨styleName, some "var(--x)".toList⟩]⟩

/-- Semicolons inside parentheses, in every value and its fallbacks, do not keep a new call from
bringing one into the open; a character that an attribute does not take ends the walk; and a
reference in no declaration is left. -/
theorem resolveMarkup_strays :
    ((∀ declaration ∈ declarationsOf joining, Ordinary declaration ∧
        Deeply (solid 0 .code · = true) declaration.value) ∧
      ∃ other, (resolveMarkup noLiveStyle [] (.element joining []) : Walk Empty Id Markup)
          = pure (.element other []) ∧
        (settledOf (scopeInside [] (definitionsOf joining)) joining).1
          = [⟨"color".toList, "x;b: 2".toList, false⟩] ∧
        declarationsOf other
          = [⟨"color".toList, "x".toList, false⟩, ⟨"b".toList, "2".toList, false⟩]) ∧
    ((∀ declaration ∈ declarationsOf ⟨"b".toList, [⟨styleName, some controlled⟩]⟩,
        Ordinary declaration ∧ Deeply (solid 0 .code · = true) declaration.value) ∧
      (resolveMarkup noLiveStyle [] (.element ⟨"b".toList, [⟨styleName, some controlled⟩]⟩ []) :
        Walk Empty Id Markup) = throw .forbiddenCharacter) ∧
    (chunked.value? styleName).any hasReference = true ∧ declarationsOf chunked = [] ∧
      (resolveMarkup noLiveStyle [] (.element chunked []) : Walk Empty Id Markup)
        = pure (.element chunked []) := by
  have guarded {tag : Tag} (each : ∀ declaration ∈ declarationsOf tag, Ordinary declaration ∧
      solid 0 .code declaration.value = true ∧ Each stays declaration.value) :
      ∀ declaration ∈ declarationsOf tag, Ordinary declaration ∧
        Deeply (solid 0 .code · = true) declaration.value := by
    intro declaration member
    obtain ⟨ordinary, uncut, stay⟩ := each declaration member
    exact ⟨ordinary, .of_stays uncut stay⟩
  refine ⟨⟨guarded (by decide +kernel), ?_⟩, ⟨guarded (by decide +kernel), ?_⟩, ?_⟩
  · have left : remainingWithin 4 "--r: r(--z, x;b: 2); --c: vavar(--r); color: var(--c)".toList
        = some [⟨"color".toList, "x;b: 2".toList, false⟩] := by decide +kernel
    have styled : joining.value? styleName
        = some "--r: r(--z, x;b: 2); --c: vavar(--r); color: var(--c)".toList := rfl
    have other : joining.name ≠ ['p'] := by decide
    refine ⟨joining.set styleName "color: x;b: 2;".toList, ?_, ?_, ?_⟩
    · rw [resolveMarkup_of_within other styled (by decide +kernel) left]
      rfl
    · rw [settledOf_of_within other styled left]
    · decide +kernel
  · have left : remainingWithin 4 controlled
        = some [⟨"color".toList, ['\'', Char.ofNat 1, '\''], false⟩,
          ⟨"margin".toList, "var(--u)".toList, false⟩] := by decide +kernel
    rw [resolveMarkup_of_within (by decide) rfl (by decide +kernel) left]
    rfl
  · exact ⟨by decide +kernel, by decide +kernel, by cbv⟩

end Inline
end ThemeCss
