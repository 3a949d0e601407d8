import ThemeCss.Proofs.Sheet.Customless
import ThemeCss.Proofs.Variables.Definitions
import ThemeCss.Proofs.Variables.Mosaic

/-!
# No custom property left behind

The single pass that drops custom declarations sees innermost blocks only. A declaration between the
rules of a block is kept, and declared once those rules are gone; a value that lost its property is
written as text that may pass for a custom property; and an at-rule that goes may join what stood
around it to one. In a sheet that has nothing of the kind, no custom property is left.
-/
namespace ThemeCss.Variables

open Scan Sheet Template

theorem Undelimited.solid {text : Text} (free : Undelimited text) (depth : Nat) (mode : Mode) :
    solid depth mode text = true :=
  solid_of_free (free.not_mem rfl) depth mode

/-! ### Blocks of a mosaic -/

section mosaic

variable {Segment : Nat → Text → Prop} {Block : Text → Text → Prop} {Last : Text → Prop}
  (regular : ∀ level segment, Segment level segment → 0 < level → startsCustom segment = false)
include regular

/-- Inside a block the part up to a closing brace shows no custom declaration, however a scan
enters it. -/
theorem Mosaic.customless_part {level : Nat} {part rest whole : Text}
    (mosaic : Mosaic Segment Block Last level whole) (inside : 0 < level)
    (parts : whole = part ++ '}' :: rest) (free : BraceFree part) (depth : Nat) (mode : Mode) :
    Customless depth mode part := by
  refine mosaic.front_induction (motive := fun part => ∀ depth mode, Customless depth mode part)
    parts free ?_ ?_ depth mode
  · intro segment undelimited kind _ depth mode
    exact customless_of_solid (undelimited.solid depth mode) (regular level segment kind inside)
  · intro segment part undelimited kind ih depth mode
    exact customless_append (undelimited.solid depth mode) (regular level segment kind inside)
      (ih _ _)

variable (clean : ∀ selector body, Block selector body → Customless 0 .code body)
include clean

/-- A block of a mosaic is one of its blocks or made of stretches; neither shows a custom
declaration. -/
theorem Mosaic.customless {level : Nat} {before body after whole : Text}
    (mosaic : Mosaic Segment Block Last level whole)
    (parts : whole = before ++ '{' :: (body ++ '}' :: after)) (free : BraceFree body) :
    Customless 0 .code body := by
  induction mosaic generalizing before with
  | last undelimited _ =>
    exact absurd (by simp [parts]) (undelimited.not_mem (c := '{') rfl)
  | cut undelimited _ _ mosaic ih =>
    rcases Text.append_cons_cases (undelimited.not_mem rfl) parts with
      ⟨rfl, rfl, rfl⟩ | ⟨further, rfl, rfl⟩
    · exact mosaic.customless_part regular (Nat.succ_pos _) rfl free 0 .code
    · exact ih rfl
  | block undelimited bodyFree _ block _ ih =>
    rcases Text.append_cons_cases (undelimited.not_mem rfl) parts with
      ⟨rfl, _, same⟩ | ⟨further, rfl, same⟩
    · rcases Text.append_cons_cases bodyFree.closer_not_mem same with
        ⟨rfl, _, _⟩ | ⟨further, rfl, _⟩
      · exact clean _ _ block
      · exact absurd (free '}' (by simp)) (by decide)
    · rcases Text.append_cons_cases bodyFree.not_mem same with
        ⟨_, brace, _⟩ | ⟨further, rfl, behind⟩
      · exact absurd brace (by decide)
      · exact ih behind

theorem Mosaic.customDeclarations {level : Nat} {css : Text}
    (mosaic : Mosaic Segment Block Last level css) : customDeclarations css = [] := by
  rw [Variables.customDeclarations, List.flatMap_eq_nil_iff]
  intro body member
  obtain ⟨bodyFree, before, after, parts⟩ := exists_of_mem_blockBodies member
  have free := mosaic.customless regular clean parts bodyFree
  rw [List.filter_eq_nil_iff]
  intro declaration listed
  rw [isCustom_of_customless free listed]
  decide

end mosaic

/-! ### Harmless stretches -/

/-- A stretch that starts like no custom declaration, and that does not make the next one start like
one when an at-rule is taken out between them. -/
structure Harmless (segment : Text) : Prop where
  regular : startsCustom segment = false
  sign : '@' ∈ segment → (Text.trimLeft segment).head? ≠ some '-'

instance (segment : Text) : Decidable (Harmless segment) :=
  decidable_of_iff (startsCustom segment = false ∧
      ('@' ∈ segment → (Text.trimLeft segment).head? ≠ some '-'))
    ⟨fun ⟨regular, sign⟩ => ⟨regular, sign⟩, fun ⟨regular, sign⟩ => ⟨regular, sign⟩⟩

theorem startsCustom_of_head {text : Text} (other : (Text.trimLeft text).head? ≠ some '-') :
    startsCustom text = false := by
  rw [startsCustom]
  cases start : Text.trimLeft text with
  | nil => rfl
  | cons c rest =>
    have hyphen : c ≠ '-' := by simpa [start] using other
    simp [Declaration.isCustomName, Text.startsWith, Text.dropWord?, hyphen]

theorem Harmless.append {front segment : Text} (other : (Text.trimLeft front).head? ≠ some '-')
    (harmless : Harmless segment) : Harmless (front ++ segment) := by
  by_cases blank : Text.trimLeft front = []
  -- Blanks are not noticed.
  · have blanks := Text.blank_of_trimLeft_eq_nil blank
    constructor
    · rw [startsCustom_blank_append blanks]
      exact harmless.regular
    · intro sign
      rw [Text.trimLeft_blank_append blanks]
      apply harmless.sign
      rcases List.mem_append.mp sign with inBlanks | inSegment
      · exact absurd (blanks '@' inBlanks) (by decide)
      · exact inSegment
  -- The first ink is that of the text in front, and no hyphen.
  · have first : (Text.trimLeft (front ++ segment)).head? ≠ some '-' := by
      rwa [Text.trimLeft_append blank, Text.head?_append_of_ne_nil blank]
    exact ⟨startsCustom_of_head first, fun _ => first⟩

/-- Only inside blocks it matters how a stretch starts. -/
theorem joins_harmless :
    Joins (fun level front => 0 < level → (Text.trimLeft front).head? ≠ some '-')
      (fun level segment => 0 < level → Harmless segment)
      (fun _ body => Customless 0 .code body) (fun _ => True) where
  blank := by
    intro level blanks blank inside
    simp [Text.trimLeft_of_blank blank]
  sign := by
    intro level segment harmless sign inside
    -- What stands in front of the sign starts as the segment does, if it has ink.
    obtain ⟨behind, parts⟩ := prefix_unsigned segment
    by_cases blank : Text.trimLeft (unsigned segment) = []
    · simp [blank]
    · have first := (harmless inside).sign sign
      rwa [← parts, Text.trimLeft_append blank, Text.head?_append_of_ne_nil blank] at first
  segment := fun other harmless inside => (harmless inside).append (other inside)
  block := fun _ customless => customless
  last := fun _ _ => trivial

/-! ### Expansion -/

/-- No rule holds a value without a property that looks like a custom declaration. -/
def Named (css : Text) : Prop :=
  ∀ rule ∈ rules css, ∀ declaration ∈ Declaration.parseAll rule.2,
    declaration.property = [] → Declaration.isCustomName declaration.value = false

instance (css : Text) : Decidable (Named css) :=
  have : ∀ rule : Text × Text, Decidable (∀ declaration ∈ Declaration.parseAll rule.2,
      declaration.property = [] → Declaration.isCustomName declaration.value = false) :=
    fun _ => List.decidableBAll _ _
  List.decidableBAll _ _

theorem customDeclarations_dropCustom {css : Text} (named : Named css)
    (loose : ∀ stretch ∈ (looseSegments 0 css).dropLast, 0 < stretch.1 → Harmless stretch.2) :
    customDeclarations (dropCustom css) = [] := by
  have mosaic := mosaic_dropCustom joins_harmless loose (fun _ _ => trivial)
    (fun rule listed some => customless_keptBody some (named rule listed))
  exact mosaic.customDeclarations (fun _ _ harmless inside => (harmless inside).regular)
    (fun _ _ customless => customless)

/-- A sheet without comments with its references replaced. -/
def replaced (source : Text) : Text := resolve (resolveAll (definitions source)) [] source

/-- Expansion leaves no custom property behind, if in the blocks of the sheet with its references
replaced every declaration that looks custom stands in a rule and has a property. -/
theorem customDeclarations_expand {css : Text} (spelled : spellsReference css = true)
    (named : Named (replaced (Comment.strip css)))
    (loose : ∀ stretch ∈ (looseSegments 0 (replaced (Comment.strip css))).dropLast,
      0 < stretch.1 → Harmless stretch.2) :
    customDeclarations (expand css) = [] := by
  rw [expand_of_spelled spelled, flatten]
  split
  next none => exact List.isEmpty_iff.mp none
  next => exact customDeclarations_dropCustom named loose

/-- Rules and at-rules in a block, some of which declare nothing but custom properties. -/
def nested : Template :=
  [.text r"@media p{a{--x:1;b:".toList, .reference "--x".toList [],
    .text r"}c{--y:2}@page{--z:3}}".toList]

def nestedDefinitions : Entries Text Template :=
  [("--x".toList, [.text ['1']]), ("--y".toList, [.text ['2']]), ("--z".toList, [.text ['3']])]

theorem replaced_nested : replaced (render nested)
    = r"@media p{a{--x:1;b:1}c{--y:2}@page{--z:3}}".toList := by
  have found : definitions (render nested) = renderAll nestedDefinitions := by decide +kernel
  rw [replaced, resolve_resolveAll (by decide) (by decide) found]
  cbv

theorem customDeclarations_expand_nested :
    spellsReference (render nested) = true ∧ customDeclarations (expand (render nested)) = [] := by
  have spelled : spellsReference (render nested) = true := by decide +kernel
  have uncommented : Comment.strip (render nested) = render nested := by decide +kernel
  refine ⟨spelled, customDeclarations_expand spelled ?_ ?_⟩
  · rw [uncommented, replaced_nested]
    decide +kernel
  · rw [uncommented, replaced_nested]
    decide +kernel

/-- A declaration between the rules of a block comes up when they are gone. -/
example : (customDeclarations
    (dropCustom r"a{--x:1;b{--y:2}c:d}".toList)).length = 1 := by
  decide +kernel

/-- So does a value that lost its property. -/
example : (customDeclarations (dropCustom r"a{:--x:1;--y:2}".toList)).length = 1 := by
  decide +kernel

end ThemeCss.Variables
