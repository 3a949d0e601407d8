import ThemeCss.Proofs.Variables.Collapse

/-!
# No comments come about

A comment opens with two characters, and a layout keeps its parts apart by others. So the text of a
layout opens no comment if no part does, and the passes bring only parts of the layout and written
declarations together.
-/
namespace ThemeCss.Sheet

open Scan Variables

/-- The text opens no comment. -/
def CommentFree (text : Text) : Prop := Text.holds Comment.opener text = false

instance (text : Text) : Decidable (CommentFree text) := inferInstanceAs (Decidable (_ = _))

namespace CommentFree

theorem append_cons_iff {c : Char} (slash : c ≠ '/') (star : c ≠ '*') {first second : Text} :
    CommentFree (first ++ c :: second) ↔ CommentFree first ∧ CommentFree second := by
  simp only [CommentFree, Comment.holds_opener_append slash star, Bool.or_eq_false_iff]

theorem cons_iff {c : Char} (slash : c ≠ '/') (star : c ≠ '*') {text : Text} :
    CommentFree (c :: text) ↔ CommentFree text := by
  have whole : CommentFree ([] ++ c :: text) ↔ CommentFree [] ∧ CommentFree text :=
    append_cons_iff slash star
  exact whole.trans (and_iff_right rfl)

/-- Only a star behind a slash opens a comment. -/
theorem cons_iff_of_head {c : Char} {text : Text} :
    CommentFree (c :: text) ↔ ¬(c = '/' ∧ text.head? = some '*') ∧ CommentFree text := by
  cases text with
  | nil => simp [CommentFree, Text.holds, Text.splitAtWord?, Comment.opener, Text.dropWord?]
  | cons d rest =>
    simp only [CommentFree, Comment.holds_opener_cons, Bool.or_eq_false_iff, List.head?_cons,
      Option.some.injEq]
    simp

theorem slashFree_append {first second : Text} (free : CommentFree second) (slash : '/' ∉ first) :
    CommentFree (first ++ second) := by
  induction first with
  | nil => exact free
  | cons c rest ih =>
    simp only [List.mem_cons, not_or] at slash
    rw [List.cons_append, cons_iff_of_head]
    constructor
    · rintro ⟨same, _⟩
      exact slash.1 same.symm
    · exact ih slash.2

theorem of_part {part text : Text} (free : CommentFree text) (inside : part <:+: text) :
    CommentFree part := Text.not_holds_of_part free inside

theorem blank_append {blanks text : Text} (blank : Text.Blank blanks) (free : CommentFree text) :
    CommentFree (blanks ++ text) := by
  induction blanks with
  | nil => exact free
  | cons c rest ih =>
    simp only [Text.Blank, List.forall_mem_cons] at blank
    -- A blank is neither of the two characters that open a comment.
    have slash : c ≠ '/' := by rintro rfl; exact absurd blank.1 (by decide)
    have star : c ≠ '*' := by rintro rfl; exact absurd blank.1 (by decide)
    exact (cons_iff slash star).mpr (ih blank.2)

theorem padded {selector : Text} (free : CommentFree selector) :
    CommentFree (selector.takeWhile Text.isBlank ++ Text.trim selector ++ [' ']) := by
  rw [append_cons_iff (by decide) (by decide)]
  exact ⟨blank_append (Text.blank_takeWhile selector) (free.of_part (Text.trim_inside selector)),
    rfl⟩

theorem join {blanks : Text} (blank : Text.Blank blanks) {parts : List Text}
    (each : ∀ part ∈ parts, CommentFree part) : CommentFree (Text.join (';' :: blanks) parts) := by
  induction parts with
  | nil => rfl
  | cons part others ih =>
    simp only [List.forall_mem_cons] at each
    cases others with
    | nil => simpa [Text.join] using each.1
    | cons other others =>
      rw [Text.join_cons_cons, List.cons_append, append_cons_iff (by decide) (by decide)]
      exact ⟨each.1, blank_append blank (ih each.2)⟩

theorem keptBody {body : Text}
    (each : ∀ declaration ∈ kept body, CommentFree declaration.write) :
    CommentFree (keptBody body) := by
  rw [Sheet.keptBody, List.singleton_append, cons_iff (by decide) (by decide),
    append_cons_iff (by decide) (by decide)]
  exact ⟨join (by decide) (by simpa using each), rfl⟩

/-- What is kept of a body opens no comment that the body does not. -/
theorem write {body : Text} (free : CommentFree body) {declaration : Declaration}
    (member : declaration ∈ kept body) : CommentFree declaration.write := by
  obtain ⟨chunk, inside, _, rfl⟩ := exists_of_mem_kept member
  exact Declaration.holds_opener_write
    (free.of_part ((Declaration.property_inside chunk).trans inside))
    (free.of_part ((Declaration.value_inside chunk).trans inside))

end CommentFree

theorem parse_of_commentFree {css : Text} (free : CommentFree css) :
    parse css = { nodes := (readNodes css).1, trailing := (readNodes css).2 } := by
  rw [parse, Comment.strip_of_openerFree free]

namespace Layout

/-- No part opens a comment. -/
def Uncommented : Layout → Prop
  | .tail content => CommentFree content
  | .statement prelude rest => CommentFree prelude ∧ rest.Uncommented
  | .rule selector body rest => CommentFree selector ∧ CommentFree body ∧ rest.Uncommented
  | .group prelude inner rest => CommentFree prelude ∧ inner.Uncommented ∧ rest.Uncommented

/-- Nothing that is kept opens a comment. -/
def Tidy : Layout → Prop
  | .tail content => CommentFree content
  | .statement prelude rest => CommentFree prelude ∧ rest.Tidy
  | .rule selector body rest =>
    CommentFree selector ∧ (∀ declaration ∈ kept body, CommentFree declaration.write) ∧ rest.Tidy
  | .group prelude inner rest =>
    CommentFree prelude ∧
      (if inner.hasBlock then inner.Tidy
        else ∀ declaration ∈ kept inner.spell, CommentFree declaration.write) ∧ rest.Tidy

theorem commentFree_spell_iff {layout : Layout} :
    CommentFree layout.spell ↔ layout.Uncommented := by
  induction layout with
  | tail content => exact Iff.rfl
  | statement prelude rest ih =>
    rw [spell, CommentFree.append_cons_iff (by decide) (by decide), ih]
    rfl
  | rule selector body rest ih =>
    rw [spell, CommentFree.append_cons_iff (by decide) (by decide),
      CommentFree.append_cons_iff (by decide) (by decide), ih]
    rfl
  | group prelude inner rest ihInner ihRest =>
    rw [spell, CommentFree.append_cons_iff (by decide) (by decide),
      CommentFree.append_cons_iff (by decide) (by decide), ihInner, ihRest]
    rfl

theorem Uncommented.tidy {layout : Layout} (free : layout.Uncommented) : layout.Tidy := by
  induction layout with
  | tail content => exact free
  | statement prelude rest ih => exact ⟨free.1, ih free.2⟩
  | rule selector body rest ih => exact ⟨free.1, fun _ => free.2.1.write, ih free.2.2⟩
  | group prelude inner rest ihInner ihRest =>
    refine ⟨free.1, ?_, ihRest free.2.2⟩
    split
    · exact ihInner free.2.1
    · exact fun _ => (commentFree_spell_iff.mpr free.2.1).write

theorem uncommented_pad {blanks : Text} (blank : Text.Blank blanks) {layout : Layout}
    (free : layout.Uncommented) : (layout.pad blanks).Uncommented := by
  cases layout with
  | tail content => exact free.blank_append blank
  | statement prelude rest => exact ⟨free.1.blank_append blank, free.2⟩
  | rule selector body rest => exact ⟨free.1.blank_append blank, free.2⟩
  | group prelude inner rest => exact ⟨free.1.blank_append blank, free.2⟩

theorem uncommented_keepRule {selector body : Text} {rest : Layout}
    (selectorFree : CommentFree selector)
    (each : ∀ declaration ∈ kept body, CommentFree declaration.write)
    (restFree : rest.Uncommented) : (keepRule selector body rest).Uncommented := by
  rw [keepRule]
  split
  · exact uncommented_pad (Text.blank_takeWhile selector) restFree
  · exact ⟨selectorFree.padded, .keptBody each, restFree⟩

theorem uncommented_dropRules {layout : Layout} (tidy : layout.Tidy) :
    layout.dropRules.Uncommented := by
  induction layout with
  | tail content => exact tidy
  | statement prelude rest ih => exact ⟨tidy.1, ih tidy.2⟩
  | rule selector body rest ih => exact uncommented_keepRule tidy.1 tidy.2.1 (ih tidy.2.2)
  | group prelude inner rest ihInner ihRest =>
    obtain ⟨preludeFree, innerTidy, restTidy⟩ := tidy
    rw [dropRules]
    -- Blocks inside are dropped in turn; without any, the text of the group is a body.
    split
    next block =>
      rw [if_pos block] at innerTidy
      exact ⟨preludeFree, ihInner innerTidy, ihRest restTidy⟩
    next plain =>
      rw [if_neg plain] at innerTidy
      exact uncommented_keepRule preludeFree innerTidy (ihRest restTidy)

theorem uncommented_pruneOnce {layout : Layout} (free : layout.Uncommented) :
    layout.pruneOnce.Uncommented := by
  induction layout with
  | tail content => exact free
  | statement prelude rest ih => exact ⟨free.1, ih free.2⟩
  | rule selector body rest ih => exact ⟨free.1, free.2.1, ih free.2.2⟩
  | group prelude inner rest ihInner ihRest =>
    obtain ⟨preludeFree, innerFree, restFree⟩ := free
    rw [pruneOnce]
    split
    · exact ⟨preludeFree, ihInner innerFree, ihRest restFree⟩
    · split
      · exact ihRest restFree
      · exact ⟨preludeFree, innerFree, ihRest restFree⟩

/-- What is left of a layout is read as it stands, for there is no comment to strip. -/
theorem parse_dropCustom {layout : Layout} (fits : layout.Fits) (steady : layout.Steady)
    (tidy : layout.Tidy) :
    parse (dropCustom layout.spell)
      = { nodes := layout.dropRules.collapsed.nodes, trailing := [] } := by
  have standing : layout.dropRules.collapsed.Standing :=
    collapsed_induction (P := Standing) (fun _ => Standing.pruneOnce)
      (standing_dropRules fits steady)
  -- Dropping leaves no part that opens a comment, and the passes after it take parts away only.
  have free : CommentFree layout.dropRules.collapsed.spell :=
    commentFree_spell_iff.mpr
      (collapsed_induction (P := Uncommented) (fun _ => uncommented_pruneOnce)
        (uncommented_dropRules tidy))
  rw [dropCustom_spell fits steady, parse_of_commentFree free, readNodes_spell standing.fits]

end Layout
end ThemeCss.Sheet
