import Mathlib
import ThemeCss.Markup.Html
import ThemeCss.Proofs.Inline.Unrendered
import ThemeCss.Proofs.Inline.Walk

/-!
# Inherited custom properties

A custom property is resolved where it is declared and passed down as the text that came of it. That
text is resolved once more wherever it is used. If it holds no reference, or none to a name that is
declared on the way down, it comes to the same on every element; a reference that was left because
its name was undefined can be caught by a declaration further down.
-/
namespace ThemeCss.Inline

open Scan Sheet Variables

variable {Failure : Type}

/-- The definitions that hold inside the last of these elements, each inside the one before it. -/
def scopeBelow (inherited : Definitions) (path : List Tag) : Definitions :=
  path.foldl (fun scope tag => scopeInside scope (definitionsOf tag)) inherited

/-- What a call in a regular declaration of the last of these elements is replaced by. -/
def replacement (path : List Tag) (call : Piece) : Text := resolvePiece (scopeBelow [] path) [] call

def Declares (tag : Tag) (name : Text) : Prop :=
  ∃ declaration ∈ declarationsOf tag, declaration.isCustom = true ∧ declaration.property = name

instance (tag : Tag) (name : Text) : Decidable (Declares tag name) :=
  inferInstanceAs (Decidable (∃ declaration ∈ _, _))

/-- An element of a forest, found down this path, and the tag that stands in its place in another
forest. -/
inductive Located : List Markup → List Markup → List Tag → Tag → Prop where
  | here {forest others children others' : List Markup} {tag other : Tag} :
      (.element tag children, .element other others') ∈ forest.zip others →
        Located forest others [tag] other
  | within {forest others children others' : List Markup} {tag other last : Tag} {path : List Tag} :
      (.element tag children, .element other others') ∈ forest.zip others →
        Located children others' path last → Located forest others (tag :: path) last

/-- The walk leaves the last of these elements with this tag: its style as it was, or else its
regular declarations with each call replaced. -/
def Leaves [Markup.Library] (Failure : Type) (path : List Tag) (tag other : Tag) : Prop :=
  if isTouched (scopeBelow [] path) tag then
    (setStyle tag (settleMargins tag ((regularOf tag).map fun declaration =>
      { declaration with value := (pieces declaration.value).flatMap (replacement path) })).1 :
        Walk Failure Id Tag) = pure other
  else other = tag

/-! ### Definitions on the way down -/

theorem mem_definitionsOf {tag : Tag} {name : Text} :
    name ∈ (definitionsOf tag).map Prod.fst ↔ Declares tag name := by
  simp [definitionsOf, localDefinitions, Entries.mem_keys_ofList, Declares, and_assoc]

theorem find?_scopeInside {inherited : Definitions} {tag : Tag} {name : Text}
    (free : ¬ Declares tag name) :
    (scopeInside inherited (definitionsOf tag)).find? name = inherited.find? name := by
  apply Entries.find?_merge_of_absent
  rw [List.map_map]
  exact fun listed => free (mem_definitionsOf.mp listed)

theorem exists_find?_scopeInside (inherited : Definitions) {tag : Tag} {name : Text}
    (declares : Declares tag name) :
    ∃ raw, (scopeInside inherited (definitionsOf tag)).find? name = some raw := by
  apply Entries.exists_find?_merge
  rw [List.map_map]
  exact mem_definitionsOf.mpr declares

theorem scopeBelow_append (inherited : Definitions) (upper lower : List Tag) :
    scopeBelow inherited (upper ++ lower) = scopeBelow (scopeBelow inherited upper) lower :=
  List.foldl_append ..

/-- What is not declared on the way down stays as it was. -/
theorem find?_scopeBelow {inherited : Definitions} {path : List Tag} {name : Text}
    (free : ∀ tag ∈ path, ¬ Declares tag name) :
    (scopeBelow inherited path).find? name = inherited.find? name := by
  induction path generalizing inherited with
  | nil => rfl
  | cons tag rest ih =>
    rw [List.forall_mem_cons] at free
    change (scopeBelow (scopeInside inherited (definitionsOf tag)) rest).find? name = _
    rw [ih free.2, find?_scopeInside free.1]

/-- The elements around an element have their places too. -/
theorem Located.exists_above {forest others : List Markup} {upper lower : List Tag}
    {tag last : Tag} (located : Located forest others (upper ++ tag :: lower) last) :
    ∃ other, Located forest others (upper ++ [tag]) other := by
  induction upper generalizing forest others with
  | nil =>
    cases located with
    | here member => exact ⟨_, .here member⟩
    | within member _ => exact ⟨_, .here member⟩
  | cons first rest ih =>
    generalize whole : first :: rest ++ tag :: lower = path at located
    cases located with
    | here member => simp at whole
    | within member located =>
      obtain ⟨rfl, rfl⟩ := List.cons.inj whole
      obtain ⟨other, above⟩ := ih located
      exact ⟨other, .within member above⟩

/-! ### The walk -/

section walk

variable [Markup.Library]

theorem exists_of_bind {α β : Type} {first : Walk Failure Id α} {rest : α → Walk Failure Id β}
    {result : β} (returned : first >>= rest = pure result) :
    ∃ value, first = pure value ∧ rest value = pure result := by
  cases outcome : (first : Except (StyleError Failure) α) with
  | ok value =>
    subst outcome
    exact ⟨value, rfl, returned⟩
  | error cause =>
    subst outcome
    exact nomatch returned

variable {live : LiveStyle Failure Id}

/-- Each markup of a forest is resolved in its place. -/
theorem resolveMarkup_of_mem_zip {scope : Definitions} {forest others : List Markup}
    (walked : resolveForest live scope forest = pure others) {markup other : Markup}
    (member : (markup, other) ∈ forest.zip others) :
    resolveMarkup live scope markup = pure other := by
  induction forest generalizing others with
  | nil => simp at member
  | cons first rest ih =>
    rw [resolveForest] at walked
    obtain ⟨first', here, walked⟩ := exists_of_bind walked
    obtain ⟨rest', behind, walked⟩ := exists_of_bind walked
    obtain rfl : first' :: rest' = others := Except.ok.inj walked
    rcases List.mem_cons.mp member with same | later
    · obtain ⟨rfl, rfl⟩ := Prod.mk.inj same
      exact here
    · exact ih behind later

/-- An element's children see the definitions inside it. -/
theorem exists_resolveTag {scope : Definitions} {tag other : Tag} {children others : List Markup}
    (walked : resolveMarkup live scope (.element tag children) = pure (.element other others)) :
    ∃ inner, resolveTag live scope tag = pure (other, inner) ∧
      resolveForest live inner children = pure others := by
  rw [resolveMarkup] at walked
  obtain ⟨⟨tag', inner⟩, here, walked⟩ := exists_of_bind walked
  obtain ⟨children', behind, walked⟩ := exists_of_bind walked
  obtain ⟨rfl, rfl⟩ := Markup.element.inj (Except.ok.inj walked)
  exact ⟨inner, here, behind⟩

/-- The scope inside an element is settled by its definitions, and so is its new style. -/
theorem of_resolveTag {inherited inner : Definitions} {tag other : Tag}
    (walked : resolveTag (noLiveStyle : LiveStyle Failure Id) inherited tag = pure (other, inner)) :
    inner = scopeInside inherited (definitionsOf tag) ∧
      if isTouched inner tag then
        (setStyle tag (settledOf inner tag).1 : Walk Failure Id Tag) = pure other
      else other = tag := by
  rw [resolveTag_unrendered] at walked
  dsimp only at walked
  split at walked
  next touched =>
    obtain ⟨tag', set, walked⟩ := exists_of_bind walked
    obtain ⟨rfl, rfl⟩ := Prod.mk.inj (Except.ok.inj walked)
    exact ⟨rfl, by rw [if_pos touched]; exact set⟩
  next untouched =>
    obtain ⟨rfl, rfl⟩ := Prod.mk.inj (Except.ok.inj walked)
    exact ⟨rfl, by rw [if_neg untouched]⟩

namespace Located

variable {forest others : List Markup} {path : List Tag} {last : Tag}

/-- An element is resolved in the scope of those around it. -/
theorem exists_step {inherited : Definitions} (located : Located forest others path last)
    (walked : resolveForest (noLiveStyle : LiveStyle Failure Id) inherited forest = pure others) :
    ∃ above tag, path = above ++ [tag] ∧
      resolveTag (noLiveStyle : LiveStyle Failure Id) (scopeBelow inherited above) tag
        = pure (last, scopeBelow inherited path) := by
  -- By the path: each element hands the scope inside it to its children.
  induction located generalizing inherited with
  | @here _ _ _ _ tag other member =>
    obtain ⟨inner, step, _⟩ := exists_resolveTag (resolveMarkup_of_mem_zip walked member)
    obtain rfl := (of_resolveTag step).1
    exact ⟨[], tag, rfl, step⟩
  | @within _ _ _ _ tag other last path member _ ih =>
    obtain ⟨inner, step, behind⟩ := exists_resolveTag (resolveMarkup_of_mem_zip walked member)
    obtain rfl := (of_resolveTag step).1
    obtain ⟨above, lower, rfl, found⟩ := ih behind
    exact ⟨tag :: above, lower, rfl, found⟩

/-- The walk replaces the calls of an element's regular declarations in the scope inside it. -/
theorem leaves {above : List Tag} {tag : Tag}
    (located : Located forest others (above ++ [tag]) last)
    (walked : resolveForest (noLiveStyle : LiveStyle Failure Id) [] forest = pure others) :
    Leaves Failure (above ++ [tag]) tag last := by
  obtain ⟨_, _, same, step⟩ := located.exists_step walked
  obtain ⟨rfl, rfl⟩ := List.append_singleton_inj.mp same
  have settled := (of_resolveTag step).2
  have pieced : resolved (scopeBelow [] (above ++ [tag])) = fun declaration =>
      { declaration with
        value := (pieces declaration.value).flatMap (replacement (above ++ [tag])) } := by
    funext declaration
    rw [resolved, resolve_eq_flatMap]
    rfl
  rwa [settledOf, pieced] at settled

end Located

end walk

/-! ### What an inherited property means -/

/-- Further down, the text that an element passes down comes to what it comes to on the element if
nothing that it still refers to is declared on the way. -/
theorem resolve_scopeBelow {scope : Definitions} {path : List Tag} {raw : Text}
    (resolving : List Text)
    (kept : ∀ used, Refers scope raw used → ∀ tag ∈ path, ¬ Declares tag used) :
    resolve (scopeBelow scope path) resolving raw = resolve scope resolving raw := by
  symm
  apply resolve_congr
  intro used refers
  rw [find?_scopeBelow (kept used refers)]

/-- A call of a defined custom property without a fallback stands for the definition. -/
theorem replacement_of_find? {path : List Tag} {head arguments raw : Text}
    (custom : Declaration.isCustomName (calledName arguments) = true)
    (found : (scopeBelow [] path).find? (calledName arguments) = some raw)
    (bare : calledFallback? arguments = none) :
    replacement path (.call head arguments)
      = resolve (scopeBelow [] path) [calledName arguments] raw := by
  have usable : usable? (scopeBelow [] path) [] (calledName arguments) = some raw := by
    simp [usable?, custom, found]
  simp only [replacement, resolvePiece, usable, bare]
  split <;> rfl

/-- A call of a custom property is replaced by one text on the nearest element around that declares
it and on an element further down, if no name that the text passed down still refers to is declared
on the way. -/
theorem replacement_inherited [Markup.Library] {forest others : List Markup}
    {upper lower : List Tag} {origin tag other : Tag} {name : Text}
    (walked : resolveForest (noLiveStyle : LiveStyle Failure Id) [] forest = pure others)
    (located : Located forest others (upper ++ origin :: (lower ++ [tag])) other)
    (declares : Declares origin name)
    (nearest : ∀ below ∈ lower ++ [tag], ¬ Declares below name)
    (kept : ∀ raw, (scopeBelow [] (upper ++ [origin])).find? name = some raw →
      ∀ used, Refers (scopeBelow [] (upper ++ [origin])) raw used →
        ∀ below ∈ lower ++ [tag], ¬ Declares below used) :
    (∃ above, Located forest others (upper ++ [origin]) above ∧
      Leaves Failure (upper ++ [origin]) origin above) ∧
    Leaves Failure (upper ++ origin :: (lower ++ [tag])) tag other ∧
    ∃ text, ∀ head arguments, calledName arguments = name → calledFallback? arguments = none →
      replacement (upper ++ [origin]) (.call head arguments) = text ∧
      replacement (upper ++ origin :: (lower ++ [tag])) (.call head arguments) = text := by
  refine ⟨?_, ?_, ?_⟩
  · obtain ⟨above, found⟩ := located.exists_above
    exact ⟨above, found, found.leaves walked⟩
  · have parts : upper ++ origin :: (lower ++ [tag]) = (upper ++ origin :: lower) ++ [tag] := by
      simp
    rw [parts] at located ⊢
    exact located.leaves walked
  · obtain ⟨declaration, _, custom, rfl⟩ := id declares
    -- The definition is the one that the origin passes down, and it is resolved alike further down.
    obtain ⟨raw, found⟩ := exists_find?_scopeInside (scopeBelow [] upper) declares
    have origins : scopeInside (scopeBelow [] upper) (definitionsOf origin)
        = scopeBelow [] (upper ++ [origin]) := (scopeBelow_append [] upper [origin]).symm
    rw [origins] at found
    have whole : scopeBelow [] (upper ++ origin :: (lower ++ [tag]))
        = scopeBelow (scopeBelow [] (upper ++ [origin])) (lower ++ [tag]) := by
      rw [← scopeBelow_append, List.append_assoc, List.singleton_append]
    refine ⟨resolve (scopeBelow [] (upper ++ [origin])) [declaration.property] raw, ?_⟩
    rintro head arguments named bare
    have custom' : Declaration.isCustomName (calledName arguments) = true := named ▸ custom
    constructor
    · rw [replacement_of_find? custom' (named ▸ found) bare, named]
    · have below : (scopeBelow [] (upper ++ origin :: (lower ++ [tag]))).find?
          (calledName arguments) = some raw := by
        rw [whole, named, find?_scopeBelow nearest, found]
      rw [replacement_of_find? custom' below bare, whole, named,
        resolve_scopeBelow _ (kept raw found)]

def styled (style : String) : Tag := ⟨"a".toList, [⟨styleName, some style.toList⟩]⟩

/-- Declares a custom property of which a reference is left. -/
def declaring : Tag := styled "--x: var(--y) 1px"

/-- Uses that property and declares another one. -/
def consuming : Tag := styled "--z: 2; margin: var(--x)"

theorem scopeBelow_declaring :
    scopeBelow [] [declaring] = [("--x".toList, "var(--y) 1px".toList)] := by cbv

theorem refers_declaring {used : Text}
    (refers : Refers (scopeBelow [] [declaring]) "var(--y) 1px".toList used) :
    used = "--y".toList := by
  have parts : pieces "var(--y) 1px".toList
      = [.text [], .call "var(".toList "--y".toList, .text " 1px".toList] := by cbv
  have only : ∀ head arguments, Piece.call head arguments ∈ pieces "var(--y) 1px".toList →
      arguments = "--y".toList := by
    intro head arguments member
    rw [parts] at member
    simp only [List.mem_cons, reduceCtorEq, Piece.call.injEq, List.not_mem_nil, or_false,
      false_or] at member
    exact member.2
  have undefined : (scopeBelow [] [declaring]).find? (calledName "--y".toList) = none := by
    rw [scopeBelow_declaring]
    decide
  cases refers with
  | called member =>
    rw [only _ _ member]
    decide
  | fallback member given =>
    have bare : calledFallback? "--y".toList = none := by decide
    rw [only _ _ member, bare] at given
    simp at given
  | definition member found =>
    rw [only _ _ member, undefined] at found
    simp at found

/-- The reference that was left is not caught by a declaration of another name. -/
theorem replacement_inherited_undefined :
    replacement [declaring, consuming] (.call "var(".toList "--x".toList)
      = "var(--y) 1px".toList := by
  have walked : resolveForest (noLiveStyle : LiveStyle Empty Id) []
      [.element declaring [.element consuming []]]
      = pure [.element ⟨"a".toList, []⟩ [.element (styled "margin: var(--y) 1px;") []]] := by cbv
  have located : Located [.element declaring [.element consuming []]]
      [.element ⟨"a".toList, []⟩ [.element (styled "margin: var(--y) 1px;") []]]
      [declaring, consuming] (styled "margin: var(--y) 1px;") :=
    .within (List.mem_singleton_self _) (.here (List.mem_singleton_self _))
  have kept : ∀ raw, (scopeBelow [] [declaring]).find? "--x".toList = some raw →
      ∀ used, Refers (scopeBelow [] [declaring]) raw used →
        ∀ below ∈ [consuming], ¬ Declares below used := by
    intro raw found used refers below member
    rw [scopeBelow_declaring] at found
    obtain rfl : "var(--y) 1px".toList = raw := Option.some.inj found
    rw [List.mem_singleton.mp member, refers_declaring refers]
    decide
  obtain ⟨_, _, text, each⟩ := @replacement_inherited Empty _ _ _ [] [] _ _ _ "--x".toList walked
    located (by decide) (by decide) kept
  obtain ⟨first, second⟩ := each "var(".toList "--x".toList (by decide) (by decide)
  have origin : replacement [declaring] (.call "var(".toList "--x".toList)
      = "var(--y) 1px".toList := by cbv
  exact second.trans (first.symm.trans origin)

end ThemeCss.Inline
