import Mathlib
import ThemeCss.Proofs.Inline.Serialized
import ThemeCss.Proofs.Inline.Staged

/-!
# Reported styles

Resolved markup is checked as text: the check looks for what is spelled like a style attribute and
takes its value undecoded. Where an element of the forest has a style, the published markup has the
attribute, if the library writes it, and the check finds it unless something spelled like an
attribute before it reaches over it. What such a style still refers to is reported then, unless it
is hidden by the references that the style is written with.
-/
namespace ThemeCss.Text

theorem takeWhile_ne {c : Char} {text : Text} (free : c ∉ text) (rest : Text) :
    (text ++ c :: rest).takeWhile (· != c) = text := by
  apply takeWhile_stop
  · intro d member
    simp only [bne_iff_ne]
    rintro rfl
    exact free member
  · simp

end ThemeCss.Text

namespace ThemeCss.Lint

open Markup Scan

/-! ### Finding a style -/

theorem isBlank_of_isQuote {c : Char} (quote : Mode.isQuote c = true) : Text.isBlank c = false := by
  rcases Mode.eq_of_isQuote quote with rfl | rfl <;> decide

/-- A quoted style behind no word character is read up to its closing quote. -/
theorem exists_styleMatcher {before : Option Char} (apart : Text.isWord? before = false)
    {quote : Char} (isQuote : Mode.isQuote quote = true) {inner : Text} (free : quote ∉ inner)
    (after : Text) : ∃ lead size, styleMatcher before
      (Inline.styleName ++ '=' :: quote :: (inner ++ quote :: after))
        = some ((lead, inner), size) := by
  have name : Text.isKeyword "style".toList Inline.styleName = true := by decide
  have ink := isBlank_of_isQuote isQuote
  rw [styleMatcher, if_neg (by simp [apart]), Text.dropKeyword?_of_isKeyword name]
  simp only [Option.map_some, Text.trimLeft_cons (show Text.isBlank '=' = false by decide),
    Text.trimLeft_cons ink, Text.takeWhile_ne free, isQuote]
  simp

/-- A style that refers is reported. -/
theorem checkReferences_of_hit {text css covered : Text} {place lead : Nat} (markup : '<' ∈ text)
    (hit : (place, (lead, css), covered) ∈ Text.hits styleMatcher text)
    (called : hasReference css = true) : checkReferences text ≠ [] := by
  have region : (place + lead, css) ∈ regions text := by
    have some : Text.hits styleMatcher text ≠ [] := List.ne_nil_of_mem hit
    simp only [regions, List.contains_iff_mem, markup, if_true, List.isEmpty_iff, some, if_false]
    exact List.mem_map.mpr ⟨_, hit, rfl⟩
  have calling : calls css ≠ [] := by
    rw [Ne, calls_eq_nil_iff, called]
    simp
  intro silent
  rw [checkReferences, List.flatMap_eq_nil_iff] at silent
  exact calling (List.map_eq_nil_iff.mp (silent _ region))

end ThemeCss.Lint

namespace ThemeCss.Inline

open Lint Markup Scan Sheet

/-- Nothing that is found as a style reaches over the place from before it. -/
def Uncovered (text : Text) (place : Nat) : Prop :=
  ∀ hit ∈ Text.hits styleMatcher text, hit.1 < place → hit.1 + hit.2.2.length ≤ place

instance (text : Text) (place : Nat) : Decidable (Uncovered text place) :=
  List.decidableBAll _ (Text.hits styleMatcher text)

/-- A published style that refers is reported if it is legible and uncovered. -/
theorem checkReferences_of_isStyle {style shade before entry after : Text}
    (markup : '<' ∈ before ++ (entry ++ after)) (isStyle : IsStyle style shade entry)
    (legible : Legible style shade) (called : hasReference style = true)
    (uncovered : Uncovered (before ++ (entry ++ after)) (before.length + 1)) :
    checkReferences (before ++ (entry ++ after)) ≠ [] := by
  obtain ⟨quote, inner, rfl, isQuote, free, encoded⟩ := isStyle
  have parts : before ++ (' ' :: styleName ++ '=' :: quote :: (inner ++ [quote]) ++ after)
      = (before ++ [' ']) ++ (styleName ++ '=' :: quote :: (inner ++ quote :: after)) := by simp
  have apart : Text.isWord? (before ++ [' ']).getLast? = false := by
    rw [List.getLast?_concat]
    decide
  obtain ⟨lead, size, found⟩ := exists_styleMatcher apart isQuote free after
  obtain ⟨covered, hit⟩ := Text.mem_hits_of_uncovered (by simp [styleName]) found (by
    rw [← parts, List.length_append]
    exact uncovered)
  rw [← parts] at hit
  exact checkReferences_of_hit markup hit (encoded.hasReference legible called)

section library

variable [Library]

/-- Markup that the walk comes through is published as the walk leaves it. -/
theorem resolveStyles_of_walked {Failure : Type} {live : LiveStyle Failure Id} (document : Markup)
    {markup : Text} {forest others : List Markup} (spelled : spellsReference markup = true)
    (content : hostContent markup = .ok forest)
    (walked : resolveForest live [] forest = pure others) :
    (Id.run (resolveStyles live document markup)).1 = .ok (publish others) := by
  have outcome := resolveStage_outcome live (Stage.enter document forest)
  have ran : (resolveForest live [] forest).run = Except.ok others := walked
  rw [show (Stage.enter document forest).forest = forest from rfl, ran] at outcome
  have published : (resolveStage live (Stage.enter document forest)).1 = .ok (publish others) :=
    outcome
  rw [resolveStyles, if_pos spelled, onStage, content]
  exact published

/-- The check sees what resolving leaves: where an element of the walked forest has a style with a
declaration that still refers, the style stands in the published markup, if the library writes it,
and wherever it stands it is reported, if the declaration's name leaves no string open, the style is
legible as it is written and nothing covers it. -/
theorem styles_reported {Failure : Type} {document : Markup} {markup : Text}
    {forest others : List Markup} (spelled : spellsReference markup = true)
    (content : hostContent markup = .ok forest)
    (walked : resolveForest (noLiveStyle : LiveStyle Failure Id) [] forest = pure others)
    (writes : ∀ node ∈ nodes others, WritesStyles node.1 node.2) :
    (Id.run (resolveStyles (noLiveStyle : LiveStyle Failure Id) document markup)).1
      = .ok (publish others) ∧
    ∀ tag style declaration, Within tag others → tag.value? styleName = some style →
      declaration ∈ parse style → hasReference declaration.value = true →
      (Mode.code.after declaration.property).quote = none →
        (∃ before entry after shade, publish others = before ++ (entry ++ after) ∧
          IsStyle style shade entry) ∧
        ∀ before entry after shade, publish others = before ++ (entry ++ after) →
          IsStyle style shade entry → Legible style shade →
            Uncovered (publish others) (before.length + 1) →
              checkReferences (publish others) ≠ [] := by
  refine ⟨resolveStyles_of_walked document spelled content walked, ?_⟩
  intro tag style declaration within styled listed called outside
  have referring := hasReference_of_mem_parse listed outside called
  have ink : style ≠ [] := by
    rintro rfl
    cases referring
  obtain ⟨before, entry, after, shade, parts, markup, isStyle⟩ :=
    within.exists_publish styled ink writes
  refine ⟨⟨before, entry, after, shade, parts, isStyle⟩, ?_⟩
  intro before' entry' after' shade' parts' isStyle' legible uncovered
  have bracket : '<' ∈ publish others := by
    rw [parts]
    exact List.mem_append_left _ markup
  rw [parts'] at bracket uncovered ⊢
  exact checkReferences_of_isStyle bracket isStyle' legible referring uncovered

end library

/-- A style with quotes of both kinds, the double one in a string. -/
def mixed : Text := "a: 'b\"'; color: var(--x);".toList

def mixedMarkup : Text := "<b style=\"a: 'b&quot;'; color: var(--x)\">t</b>".toList

def mixedForest (style : Text) : List Markup :=
  [.element ⟨['b'], [⟨styleName, some style⟩]⟩ [.text ['t']]]

theorem styles_reported_mixed :
    (Id.run (resolveStyles (noLiveStyle : LiveStyle Empty Id) emptyDocument mixedMarkup)).1
      = .ok "<b style=\"a: 'b&quot;'; color: var(--x);\">t</b>".toList ∧
    checkReferences "<b style=\"a: 'b&quot;'; color: var(--x);\">t</b>".toList ≠ [] := by
  have content : hostContent mixedMarkup
      = .ok (mixedForest "a: 'b\"'; color: var(--x)".toList) := by
    have read : Library.read mixedMarkup
        = .ok (mixedForest "a: 'b\"'; color: var(--x)".toList) :=
      (readFragment_of_part (by decide)).trans (congrArg Except.ok (by decide +kernel))
    rw [hostContent_of_ok read]
    exact if_pos rfl
  have walked : resolveForest (noLiveStyle : LiveStyle Empty Id) []
      (mixedForest "a: 'b\"'; color: var(--x)".toList) = pure (mixedForest mixed) := by cbv
  have published : publish (mixedForest mixed)
      = "<b style=\"a: 'b&quot;'; color: var(--x);\">t</b>".toList := by decide +kernel
  have written : publish (mixedForest mixed)
      = "<b".toList ++ (styleEntry mixed ++ ">t</b>".toList) := by decide +kernel
  have writes : ∀ node ∈ nodes (mixedForest mixed), WritesStyles node.1 node.2 := by
    rintro node member
    obtain rfl := List.mem_singleton.mp member
    exact writesStyles_of_typeFree (by decide +kernel)
  have listed : (⟨"color".toList, "var(--x)".toList, false⟩ : Declaration) ∈ parse mixed := by
    decide +kernel
  have uncovered : Uncovered (publish (mixedForest mixed)) ("<b".toList.length + 1) := by
    decide +kernel
  obtain ⟨shade, isStyle, legible⟩ := exists_isStyle mixed
  obtain ⟨returned, reported⟩ := @styles_reported _ Empty emptyDocument _ _ _ (by decide) content
    walked writes
  obtain ⟨_, found⟩ := reported _ mixed _ (.here (List.mem_singleton_self _)) (by decide) listed
    (by decide) (by decide)
  rw [← published]
  exact ⟨returned, found _ _ _ shade written isStyle (legible (by decide)) uncovered⟩

end ThemeCss.Inline
