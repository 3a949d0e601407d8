import ThemeCss.Proofs.Variables.Bare
import ThemeCss.Proofs.Variables.CommentFree
import ThemeCss.Proofs.Variables.Leftover

/-!
# Expanding again

An expanded sheet is left as it is when no custom property, no comment and no reference with a
fallback is left in it. The first is the subject of `Proofs.Variables.Leftover`. The other two come
about when references are replaced, where replacements join to a comment or a call; dropping custom
declarations brings together only parts that are kept apart, so they are asked of the parts.
-/
namespace ThemeCss.Variables

open Scan Sheet Template

/-! ### Quiet parts -/

/-- Characters that keep comments, strings and calls apart. -/
def separates (c : Char) : Bool :=
  Text.breaks callWord c && isOrdinary c && c != '/' && c != '*'

theorem separates_of_blank {c : Char} (blank : Text.isBlank c = true) : separates c = true := by
  have slash : c ≠ '/' := by rintro rfl; exact absurd blank (by decide)
  have star : c ≠ '*' := by rintro rfl; exact absurd blank (by decide)
  simp [separates, breaks_of_blank blank, isOrdinary_of_blank blank, slash, star]

/-- A part that opens no comment and leaves no string open, and whose references are bare. -/
structure Quiet (text : Text) : Prop where
  commentFree : CommentFree text
  closed : Closed text
  bare : Bare text

instance (text : Text) : Decidable (Quiet text) :=
  decidable_of_iff (CommentFree text ∧ Closed text ∧ Bare text)
    ⟨fun ⟨commentFree, closed, bare⟩ => ⟨commentFree, closed, bare⟩,
      fun ⟨commentFree, closed, bare⟩ => ⟨commentFree, closed, bare⟩⟩

/-- A text without closed comments in which nothing is replaced when nothing is defined. -/
structure Idle (text : Text) : Prop where
  uncommented : Comment.strip text = text
  stays : Each stays text

instance (text : Text) : Decidable (Idle text) :=
  decidable_of_iff (Comment.strip text = text ∧ Each stays text)
    ⟨fun ⟨uncommented, stays⟩ => ⟨uncommented, stays⟩,
      fun ⟨uncommented, stays⟩ => ⟨uncommented, stays⟩⟩

theorem quiet_nil : Quiet [] := ⟨rfl, closed_nil, bare_of_none rfl⟩

section separates

variable {c : Char} (apart : separates c = true)
include apart

theorem Quiet.append {first second : Text} (left : Quiet first) (right : Quiet second) :
    Quiet (first ++ c :: second) := by
  simp only [separates, Bool.and_eq_true, bne_iff_ne] at apart
  obtain ⟨⟨⟨breaks, ordinary⟩, slash⟩, star⟩ := apart
  exact ⟨(CommentFree.append_cons_iff slash star).mpr ⟨left.commentFree, right.commentFree⟩,
    left.closed.append (right.closed.cons ordinary),
    left.bare.append breaks ordinary left.closed right.bare⟩

/-- A quiet part can be put in front of an idle one. -/
theorem Quiet.append_idle {first second : Text} (left : Quiet first) (right : Idle second) :
    Idle (first ++ c :: second) := by
  simp only [separates, Bool.and_eq_true, bne_iff_ne] at apart
  obtain ⟨⟨⟨breaks, ordinary⟩, slash⟩, star⟩ := apart
  constructor
  · rw [Comment.strip_append slash star left.commentFree, right.uncommented]
  · exact left.bare.append_stays breaks ordinary left.closed right.stays

end separates

theorem blank_append_of {P : Text → Prop}
    (behind : ∀ {c text}, separates c = true → P text → P ([] ++ c :: text)) {blanks text : Text}
    (blank : Text.Blank blanks) (holds : P text) : P (blanks ++ text) := by
  induction blanks with
  | nil => exact holds
  | cons c rest ih =>
    simp only [Text.Blank, List.forall_mem_cons] at blank
    exact behind (separates_of_blank blank.1) (ih blank.2)

theorem Quiet.blank_append {blanks text : Text} (blank : Text.Blank blanks) (quiet : Quiet text) :
    Quiet (blanks ++ text) :=
  blank_append_of (fun apart => quiet_nil.append apart) blank quiet

theorem Idle.blank_append {blanks text : Text} (blank : Text.Blank blanks) (idle : Idle text) :
    Idle (blanks ++ text) :=
  blank_append_of (fun apart => quiet_nil.append_idle apart) blank idle

theorem quiet_join {parts : List Text} (each : ∀ part ∈ parts, Quiet part) :
    Quiet (Text.join [';', ' '] parts) := by
  induction parts with
  | nil => exact quiet_nil
  | cons part others ih =>
    simp only [List.forall_mem_cons] at each
    cases others with
    | nil => simpa [Text.join] using each.1
    | cons other others =>
      have behind := (ih each.2).blank_append (by decide : Text.Blank [' '])
      rw [Text.join_cons_cons]
      exact each.1.append (by decide) behind

theorem quiet_keptBody {body : Text} (each : ∀ declaration ∈ kept body, Quiet declaration.write) :
    Quiet (keptBody body) := by
  have blank : Text.Blank [' '] := by decide
  have last : Quiet [' '] := quiet_nil.blank_append blank
  have joined : Quiet (Text.join [';', ' '] ((kept body).map Declaration.write)) :=
    quiet_join (by simpa using each)
  exact (joined.append (by decide) last).blank_append blank

/-- Only what stands last in a mosaic may leave something open. -/
theorem Mosaic.idle {Segment : Nat → Text → Prop} {Block : Text → Text → Prop}
    (segments : ∀ level segment, Segment level segment → Quiet segment)
    (blocks : ∀ selector body, Block selector body → Quiet selector ∧ Quiet body) {level : Nat}
    {css : Text} (mosaic : Mosaic Segment Block Idle level css) : Idle css := by
  induction mosaic with
  | last _ idle => exact idle
  | @cut level stretch rest c _ segment delimiter _ ih =>
    have apart : separates c = true := by
      simp only [isDelimiter, isBrace, Bool.or_eq_true, beq_iff_eq, or_assoc] at delimiter
      rcases delimiter with rfl | rfl | rfl <;> decide
    exact (segments level stretch segment).append_idle apart ih
  | block _ _ _ block _ ih =>
    obtain ⟨selector, body⟩ := blocks _ _ block
    exact selector.append_idle (by decide) (body.append_idle (by decide) ih)

/-! ### Lasting sheets -/

/-- A quiet stretch that starts like no custom declaration if it stands in a block, and that goes as
a whole if it is the prelude of an empty at-rule. -/
structure Loose (level : Nat) (segment : Text) : Prop where
  regular : 0 < level → startsCustom segment = false
  sign : '@' ∈ segment → opensAt segment = true
  quiet : Quiet segment

instance (level : Nat) (segment : Text) : Decidable (Loose level segment) :=
  decidable_of_iff ((0 < level → startsCustom segment = false) ∧
      ('@' ∈ segment → opensAt segment = true) ∧ Quiet segment)
    ⟨fun ⟨regular, sign, quiet⟩ => ⟨regular, sign, quiet⟩,
      fun ⟨regular, sign, quiet⟩ => ⟨regular, sign, quiet⟩⟩

/-- A quiet rule that shows no custom declaration. -/
structure QuietRule (selector body : Text) : Prop where
  quietSelector : Quiet selector
  quietBody : Quiet body
  customless : Customless 0 .code body

theorem blank_unsigned {segment : Text} (opens : opensAt segment = true) :
    Text.Blank (unsigned segment) := by
  obtain ⟨rest, start⟩ := exists_of_opensAt opens
  have blank := Text.blank_takeWhile segment
  have front : segment.takeWhile (· != '@') = segment.takeWhile Text.isBlank := by
    have passes : ∀ c ∈ segment.takeWhile Text.isBlank, (c != '@') = true := by
      intro c member
      apply bne_iff_ne.mpr
      rintro rfl
      exact absurd (blank '@' member) (by decide)
    conv => lhs; rw [← Text.takeWhile_append_trimLeft segment, start,
      Text.takeWhile_stop passes (by decide)]
  obtain ⟨blanks, _, parts⟩ := Text.exists_trimRight_append (segment.takeWhile (· != '@'))
  intro c member
  apply blank c
  rw [← front, parts]
  exact List.mem_append_left _ member

theorem joins_loose : Joins (fun _ => Text.Blank) Loose QuietRule Idle where
  blank := id
  sign := fun loose sign => blank_unsigned (loose.sign sign)
  segment := by
    intro level front segment blank loose
    refine ⟨?_, ?_, loose.quiet.blank_append blank⟩
    · rw [startsCustom_blank_append blank]
      exact loose.regular
    · intro sign
      rw [opensAt_blank_append blank]
      apply loose.sign
      rcases List.mem_append.mp sign with inFront | inSegment
      · exact absurd (blank '@' inFront) (by decide)
      · exact inSegment
  block := fun blank rule =>
    ⟨rule.quietSelector.blank_append blank, rule.quietBody, rule.customless⟩
  last := Idle.blank_append

/-- A sheet made of parts that are still quiet when its custom declarations are dropped. Only behind
the last delimiter may something be left open. -/
structure Lasting (css : Text) : Prop where
  named : Named css
  loose : ∀ stretch ∈ (looseSegments 0 css).dropLast, Loose stretch.1 stretch.2
  ending : ∀ stretch ∈ (looseSegments 0 css).getLast?, Idle stretch.2
  written : ∀ rule ∈ rules css, ∀ declaration ∈ kept rule.2,
    Quiet (Text.trim rule.1) ∧ Quiet declaration.write

instance (css : Text) : Decidable (Lasting css) :=
  have : ∀ rule : Text × Text, Decidable (∀ declaration ∈ kept rule.2,
      Quiet (Text.trim rule.1) ∧ Quiet declaration.write) :=
    fun _ => List.decidableBAll _ _
  have : Decidable (∀ rule ∈ rules css, ∀ declaration ∈ kept rule.2,
      Quiet (Text.trim rule.1) ∧ Quiet declaration.write) :=
    List.decidableBAll _ _
  decidable_of_iff (Named css ∧
      (∀ stretch ∈ (looseSegments 0 css).dropLast, Loose stretch.1 stretch.2) ∧
      (∀ stretch ∈ (looseSegments 0 css).getLast?, Idle stretch.2) ∧
      ∀ rule ∈ rules css, ∀ declaration ∈ kept rule.2,
        Quiet (Text.trim rule.1) ∧ Quiet declaration.write)
    ⟨fun ⟨named, loose, ending, written⟩ => ⟨named, loose, ending, written⟩,
      fun ⟨named, loose, ending, written⟩ => ⟨named, loose, ending, written⟩⟩

theorem Lasting.mosaic {css : Text} (lasting : Lasting css) :
    Mosaic Loose QuietRule Idle 0 (dropCustom css) := by
  apply mosaic_dropCustom joins_loose lasting.loose lasting.ending
  intro rule listed some
  obtain ⟨declaration, member⟩ := List.exists_mem_of_ne_nil _ some
  have each := lasting.written rule listed
  refine ⟨(each declaration member).1.append (by decide) quiet_nil, ?_, ?_⟩
  · exact quiet_keptBody fun declaration member => (each declaration member).2
  · exact customless_keptBody some (lasting.named rule listed)

theorem Lasting.idle {css : Text} (lasting : Lasting css) : Idle (dropCustom css) :=
  lasting.mosaic.idle (fun _ _ => Loose.quiet)
    (fun _ _ rule => ⟨rule.quietSelector, rule.quietBody⟩)

theorem Lasting.customDeclarations {css : Text} (lasting : Lasting css) :
    customDeclarations (dropCustom css) = [] :=
  lasting.mosaic.customDeclarations (fun _ _ => Loose.regular) (fun _ _ => QuietRule.customless)

/-! ### Expansion -/

/-- An idle sheet that declares no custom property is left as it is. -/
theorem expand_of_idle {css : Text} (none : customDeclarations css = []) (idle : Idle css) :
    expand css = css := by
  cases spelled : spellsReference css with
  | false => exact expand_of_unspelled spelled
  | true =>
    have undefined : resolveAll (definitions css) = [] := by
      simp [definitions, none, resolveAll, Entries.ofList]
    rw [expand_of_spelled spelled, idle.uncommented, flatten, undefined,
      resolve_of_stays idle.stays, none]
    rfl

/-- Expanding an expanded sheet changes nothing, if no reference is spelled in it, or else the sheet
with its references replaced is idle or, where it declares custom properties, lasting. -/
theorem expand_expand {css : Text}
    (idle : spellsReference (expand css) = true →
      customDeclarations (replaced (Comment.strip css)) = [] → Idle (replaced (Comment.strip css)))
    (lasting : spellsReference (expand css) = true →
      customDeclarations (replaced (Comment.strip css)) ≠ [] →
        Lasting (replaced (Comment.strip css))) :
    expand (expand css) = expand css := by
  cases again : spellsReference (expand css) with
  | false => exact expand_of_unspelled again
  | true =>
    have spelled : spellsReference css = true := by
      cases spelled : spellsReference css with
      | true => rfl
      | false => rw [expand_of_unspelled spelled, spelled] at again; exact again
    have whole : expand css = if (customDeclarations (replaced (Comment.strip css))).isEmpty
        then replaced (Comment.strip css) else dropCustom (replaced (Comment.strip css)) := by
      rw [expand_of_spelled spelled, flatten, replaced]
    by_cases none : customDeclarations (replaced (Comment.strip css)) = []
    · rw [none, List.isEmpty_nil, if_pos rfl] at whole
      rw [whole]
      exact expand_of_idle none (idle again none)
    · rw [if_neg (by simpa using none)] at whole
      have lasts := lasting again none
      rw [whole]
      exact expand_of_idle lasts.customDeclarations lasts.idle

/-- A cyclic definition and an undefined reference in an at-rule, beside another that comes to
nothing. -/
def lingering : Template :=
  [.text r"@media p{a{--x:".toList, .reference "--x".toList [],
    .text ";b:".toList, .reference "--x".toList [], .text ";c:".toList,
    .reference "--u".toList [], .text r"}@page{--z:3}}".toList]

def lingeringDefinitions : Entries Text Template :=
  [("--x".toList, [.reference "--x".toList []]), ("--z".toList, [.text ['3']])]

theorem replaced_lingering : replaced (render lingering)
    = r"@media p{a{--x:var(--x);b:var(--x);c:var(--u)}@page{--z:3}}".toList := by
  have found : definitions (render lingering) = renderAll lingeringDefinitions := by
    decide +kernel
  rw [replaced, resolve_resolveAll (by decide) (by decide) found]
  cbv

theorem expand_expand_lingering :
    expand (render lingering) = r"@media p{a { b: var(--x); c: var(--u); }}".toList ∧
      expand (expand (render lingering)) = expand (render lingering) := by
  have spelled : spellsReference (render lingering) = true := by decide +kernel
  have uncommented : Comment.strip (render lingering) = render lingering := by decide +kernel
  constructor
  · rw [expand_of_spelled spelled, flatten, ← replaced, uncommented, replaced_lingering]
    decide +kernel
  · apply expand_expand
    · intro _
      rw [uncommented, replaced_lingering]
      decide +kernel
    · intro _
      rw [uncommented, replaced_lingering]
      decide +kernel

/-- A declaration that comes up when the rules of its block are gone is not dropped until the next
time. -/
example : dropCustom (dropCustom r"a{--x:1;b{--y:2}c:d}".toList)
    ≠ dropCustom r"a{--x:1;b{--y:2}c:d}".toList := by
  decide +kernel

end ThemeCss.Variables
