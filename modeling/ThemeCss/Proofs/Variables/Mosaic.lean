import ThemeCss.Proofs.Variables.Tile

/-!
# Mosaics

A mosaic is a text put together from stretches in front of delimiters, from blocks and from a last
stretch, each of a given kind, where the kind of a stretch may depend on how many blocks are open
around it. Dropping custom declarations makes a mosaic of a text whose loose stretches and kept
rules are of these kinds, and removing empty at-rules keeps it one, so what the parts have, the
expanded sheet has. Both passes put a stretch that is left in front of the next part: blanks where a
rule is gone, and what stood before its sign where an at-rule is.
-/
namespace ThemeCss.Variables

open Scan Sheet

inductive Mosaic (Segment : Nat → Text → Prop) (Block : Text → Text → Prop) (Last : Text → Prop) :
    Nat → Text → Prop where
  | last {level : Nat} {segment : Text} : Undelimited segment → Last segment →
      Mosaic Segment Block Last level segment
  | cut {level : Nat} {segment rest : Text} {c : Char} : Undelimited segment →
      Segment level segment → isDelimiter c = true →
      Mosaic Segment Block Last (levelAfter level c) rest →
      Mosaic Segment Block Last level (segment ++ c :: rest)
  | block {level : Nat} {selector body rest : Text} : Undelimited selector → BraceFree body →
      ¬Text.Blank body → Block selector body → Mosaic Segment Block Last level rest →
      Mosaic Segment Block Last level (selector ++ '{' :: (body ++ '}' :: rest))

/-- What the passes leave in front of a part does not change its kind. -/
structure Joins (Front Segment : Nat → Text → Prop) (Block : Text → Text → Prop)
    (Last : Text → Prop) : Prop where
  blank : ∀ {level : Nat} {blanks : Text}, Text.Blank blanks → Front level blanks
  sign : ∀ {level : Nat} {segment : Text}, Segment level segment → '@' ∈ segment →
    Front level (unsigned segment)
  segment : ∀ {level : Nat} {front segment : Text}, Front level front → Segment level segment →
    Segment level (front ++ segment)
  block : ∀ {level : Nat} {front selector body : Text}, Front level front → Block selector body →
    Block (front ++ selector) body
  last : ∀ {level : Nat} {front segment : Text}, Front level front → Last segment →
    Last (front ++ segment)

variable {Front Segment : Nat → Text → Prop} {Block : Text → Text → Prop} {Last : Text → Prop}

namespace Mosaic

/-- Up to a closing brace with no other brace before it a mosaic is made of stretches with
semicolons between them, and behind that brace it is a mosaic one block further out. -/
theorem front_induction {motive : Text → Prop} {level : Nat} {part rest whole : Text}
    (mosaic : Mosaic Segment Block Last level whole) (parts : whole = part ++ '}' :: rest)
    (free : BraceFree part)
    (last : ∀ {segment}, Undelimited segment → Segment level segment →
      Mosaic Segment Block Last (level - 1) rest → motive segment)
    (cut : ∀ {segment part}, Undelimited segment → Segment level segment → motive part →
      motive (segment ++ ';' :: part)) : motive part := by
  induction mosaic generalizing part with
  | last undelimited _ =>
    exact absurd (by simp [parts]) (undelimited.not_mem (c := '}') rfl)
  | @cut level stretch behind c undelimited segment delimiter mosaic ih =>
    rcases Text.append_cons_cases (undelimited.not_mem rfl) parts with
      ⟨rfl, rfl, rfl⟩ | ⟨further, rfl, rfl⟩
    · exact last undelimited segment mosaic
    · -- The part goes on behind `c`, which is then a semicolon.
      have semicolon : c = ';' := by
        have other := free c (by simp)
        simpa [isDelimiter, other] using delimiter
      subst semicolon
      exact cut undelimited segment (ih rfl (fun d member => free d (by simp [member])) last cut)
  | block undelimited _ _ _ _ _ =>
    rcases Text.append_cons_cases (undelimited.not_mem rfl) parts with
      ⟨_, same, _⟩ | ⟨further, rfl, _⟩
    · exact absurd same (by decide)
    · exact absurd (free '{' (by simp)) (by decide)

/-- What stands behind a closing brace is a mosaic again, one block further out. -/
theorem behind {level : Nat} {part rest whole : Text}
    (mosaic : Mosaic Segment Block Last level whole) (parts : whole = part ++ '}' :: rest)
    (free : BraceFree part) : Mosaic Segment Block Last (level - 1) rest :=
  mosaic.front_induction (motive := fun _ => Mosaic Segment Block Last (level - 1) rest) parts free
    (fun _ _ behind => behind) fun _ _ behind => behind

section joins

variable (joins : Joins Front Segment Block Last)
include joins

theorem append {level : Nat} {front rest : Text} (free : Undelimited front)
    (fronts : Front level front) (mosaic : Mosaic Segment Block Last level rest) :
    Mosaic Segment Block Last level (front ++ rest) := by
  cases mosaic with
  | last undelimited last =>
    exact .last (free.append undelimited) (joins.last fronts last)
  | cut undelimited segment delimiter behind =>
    rw [← List.append_assoc]
    exact .cut (free.append undelimited) (joins.segment fronts segment) delimiter behind
  | block undelimited bodyFree ink block behind =>
    rw [← List.append_assoc]
    exact .block (free.append undelimited) bodyFree ink (joins.block fronts block) behind

/-- A pass over the empty at-rules keeps a mosaic. -/
theorem dropEmptyAtRules {level : Nat} {text : Text}
    (mosaic : Mosaic Segment Block Last level text) :
    Mosaic Segment Block Last level (dropEmptyAtRules text) := by
  induction mosaic with
  | last undelimited last =>
    rw [dropEmptyAtRules_last undelimited]
    exact .last undelimited last
  | @cut level stretch rest c undelimited segment delimiter _ ih =>
    by_cases hit : '@' ∈ stretch ∧
        ∃ body size, blockMatcher none (c :: rest) = some (body, size) ∧ Text.Blank body
    · obtain ⟨sign, body, size, found, blank⟩ := hit
      obtain ⟨rfl, _, after, rfl⟩ := exists_of_blockMatcher found
      -- The pass goes on behind the closing brace, where what it makes is a mosaic.
      have closes := blockMatcher_other (c := '}') (by decide) none after
      rw [dropEmptyAtRules_cut (undelimited_of_blank blank) rfl (by simp [closes])] at ih
      have free : Undelimited (unsigned stretch) :=
        fun d member => undelimited d ((prefix_unsigned stretch).subset member)
      rw [dropEmptyAtRules_blank undelimited sign blank]
      exact append joins free (joins.sign segment sign) (ih.behind rfl (braceFree_of_blank blank))
    · rw [dropEmptyAtRules_cut undelimited delimiter]
      · exact .cut undelimited segment delimiter ih
      · intro sign body size found blank
        exact hit ⟨sign, body, size, found, blank⟩
  | block undelimited bodyFree ink block _ ih =>
    rw [dropEmptyAtRules_rule undelimited bodyFree ink]
    exact .block undelimited bodyFree ink block ih

theorem collapse {level : Nat} {text : Text} (mosaic : Mosaic Segment Block Last level text) :
    Mosaic Segment Block Last level (collapse text) := by
  fun_induction Variables.collapse text with
  | case1 text collapsed _ ih => exact ih (mosaic.dropEmptyAtRules joins)
  | case2 text collapsed _ => exact mosaic

end joins

end Mosaic

/-! ### Dropping makes a mosaic -/

theorem rewriteRule_of_dropped {body : Text} (nothing : kept body = []) (selector : Text) :
    rewriteRule selector body = selector.takeWhile Text.isBlank := by
  rw [rewriteRule, if_pos]
  exact List.isEmpty_iff.mpr nothing

theorem rewriteRule_of_kept {body : Text} (some : kept body ≠ []) (selector : Text) :
    rewriteRule selector body
      = selector.takeWhile Text.isBlank ++ (Text.trim selector ++ [' '])
        ++ '{' :: (keptBody body ++ ['}']) := by
  rw [rewriteRule, if_neg]
  · simp [keptBody, kept]
  · rwa [List.isEmpty_iff]

section joins

variable (joins : Joins Front Segment Block Last) {level : Nat} {css : Text}
  (loose : ∀ stretch ∈ (looseSegments level css).dropLast, Segment stretch.1 stretch.2)
  (ending : ∀ stretch ∈ (looseSegments level css).getLast?, Last stretch.2)
  (written : ∀ rule ∈ rules css, kept rule.2 ≠ [] →
    Block (Text.trim rule.1 ++ [' ']) (keptBody rule.2))
include joins loose ending written

theorem mosaic_dropDeclarations : Mosaic Segment Block Last level (dropDeclarations css) := by
  induction css using tile_induction generalizing level with
  | last segment free =>
    rw [looseSegments_last free] at ending
    rw [dropDeclarations, rewrite_rules_last _ free]
    exact .last free (ending (level, segment) rfl)
  | rule selector body rest free bodyFree ih =>
    have more := looseSegments_ne_nil level rest
    rw [rules_rule free bodyFree, List.forall_mem_cons] at written
    rw [looseSegments_rule free bodyFree] at loose ending
    rw [List.dropLast_cons_of_ne_nil more, List.forall_mem_cons] at loose
    rw [List.getLast?_cons_of_ne_nil more] at ending
    have behind := ih loose.2 ending written.2
    have leading := Text.blank_takeWhile selector
    have rewritten : dropDeclarations (selector ++ '{' :: (body ++ '}' :: rest))
        = rewriteRule selector body ++ dropDeclarations rest :=
      rewrite_rules_rule _ free bodyFree rest
    rw [rewritten]
    by_cases nothing : kept body = []
    -- Only blanks are left of the rule.
    · rw [rewriteRule_of_dropped nothing]
      exact behind.append joins (undelimited_of_blank leading) (joins.blank leading)
    · have fronts : Front level (selector.takeWhile Text.isBlank) := joins.blank leading
      have block := Mosaic.block (Layout.undelimited_padded free) (braceFree_keptBody bodyFree)
        (not_blank_keptBody body)
        (List.append_assoc .. ▸ joins.block fronts (written.1 nothing)) behind
      rw [rewriteRule_of_kept nothing]
      simpa using block
  | cut segment c rest free delimiter misses ih =>
    have more := looseSegments_ne_nil (levelAfter level c) rest
    rw [rules_cut free delimiter misses] at written
    rw [looseSegments_cut free delimiter misses] at loose ending
    rw [List.dropLast_cons_of_ne_nil more, List.forall_mem_cons] at loose
    rw [List.getLast?_cons_of_ne_nil more] at ending
    rw [dropDeclarations, rewrite_rules_cut _ free delimiter misses]
    exact .cut free loose.1 delimiter (ih loose.2 ending written)

/-- What is left of a text is a mosaic of its loose stretches and kept rules. -/
theorem mosaic_dropCustom : Mosaic Segment Block Last level (dropCustom css) :=
  (mosaic_dropDeclarations joins loose ending written).collapse joins

end joins

end ThemeCss.Variables
