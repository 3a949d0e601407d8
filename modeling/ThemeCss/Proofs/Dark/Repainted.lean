import ThemeCss.Proofs.Sheet.WellFormed

/-!
# Repainted values

A value is repainted when literals in code give way to other literals and everything else stays. To
a scan a literal is as good as nothing: it quotes nothing and closes the parentheses it opens. So a
repainted value cuts, nests and quotes where the old one did, and what makes a value readable is
kept: one lemma for each such property, by induction on the repainting.
-/
namespace ThemeCss.Dark

open Scan Sheet

/-- A scan in code passes the text as if nothing stood there. -/
structure Neutral (text : Text) : Prop where
  ink : text ≠ []
  closed : Closed text
  balanced : Bracket.round.Balanced text

/-- Characters that no literal is written with. -/
def strangers : Text := ['\'', '"', '\\', ';', '{', '}', '/', '!']

/-- What can be written in the place of a literal. -/
structure IsLiteral (text : Text) : Prop extends Neutral text where
  trimmed : Text.Trimmed text
  free : Text.Avoids strangers text
  start : text.head? ≠ some '*'
  marked : '#' ∈ text ∨ '(' ∈ text

/-- Repainting a text that a scan enters in the given mode. -/
inductive Repainted : Mode → Text → Text → Prop where
  | nil (mode : Mode) : Repainted mode [] []
  | keep {mode : Mode} (c : Char) {old new : Text} :
      Repainted (mode.step c) old new → Repainted mode (c :: old) (c :: new)
  | literal {covered written old new : Text} :
      Neutral covered → IsLiteral written → Repainted .code old new →
        Repainted .code (covered ++ old) (written ++ new)
  | trans {mode : Mode} {first second third : Text} :
      Repainted mode first second → Repainted mode second third → Repainted mode first third

namespace Neutral

variable {text : Text} (neutral : Neutral text)
include neutral

theorem depth?_append (depth : Nat) (rest : Text) :
    Bracket.round.depth? depth .code (text ++ rest) = Bracket.round.depth? depth .code rest := by
  rw [Bracket.depth?_append, neutral.balanced.depth, neutral.closed.after]
  rfl

theorem after_append (rest : Text) : Mode.code.after (text ++ rest) = Mode.code.after rest := by
  rw [Mode.after_append, neutral.closed.after]

theorem nestingAfter_eq (depth : Nat) : nestingAfter depth .code text = depth :=
  nestingAfter_of_depth? (neutral.balanced.depth depth)

end Neutral

theorem IsLiteral.solid {text : Text} (isLiteral : IsLiteral text) (depth : Nat) (mode : Mode) :
    solid depth mode text = true :=
  solid_of_free (fun member => isLiteral.free _ member (by decide)) depth mode

namespace Repainted

variable {mode : Mode} {old new : Text}

theorem keep_append (text : Text) (rest : Repainted (mode.after text) old new) :
    Repainted mode (text ++ old) (text ++ new) := by
  induction text generalizing mode with
  | nil => exact rest
  | cons c text ih => exact .keep c (ih rest)

theorem refl (mode : Mode) (text : Text) : Repainted mode text text := by
  have whole := keep_append text (.nil (mode.after text))
  rwa [List.append_nil] at whole

variable (repainted : Repainted mode old new)
include repainted

/-! ### Scans -/

theorem after_eq : mode.after new = mode.after old := by
  induction repainted with
  | nil => rfl
  | keep c _ ih => exact ih
  | literal neutral isLiteral _ ih => rw [neutral.after_append, isLiteral.after_append, ih]
  | trans _ _ ihFirst ihSecond => exact ihSecond.trans ihFirst

theorem append {restOld restNew : Text} (rest : Repainted (mode.after old) restOld restNew) :
    Repainted mode (old ++ restOld) (new ++ restNew) := by
  induction repainted generalizing restOld restNew with
  | nil => exact rest
  | keep c _ ih => exact .keep c (ih rest)
  | literal neutral isLiteral _ ih =>
    rw [neutral.after_append] at rest
    rw [List.append_assoc, List.append_assoc]
    exact .literal neutral isLiteral (ih rest)
  | trans first _ ihFirst ihSecond =>
    -- The text behind is repainted along with the first step and stays in the second.
    exact .trans (ihFirst rest) (ihSecond (refl _ _))

theorem depth?_eq (depth : Nat) :
    Bracket.round.depth? depth mode new = Bracket.round.depth? depth mode old := by
  induction repainted generalizing depth with
  | nil => rfl
  | keep c _ ih => simp only [Bracket.depth?, ih]
  | literal neutral isLiteral _ ih => rw [neutral.depth?_append, isLiteral.depth?_append, ih]
  | trans _ _ ihFirst ihSecond => exact (ihSecond depth).trans (ihFirst depth)

theorem solid {depth : Nat} (uncut : Scan.solid depth mode old = true) :
    Scan.solid depth mode new = true := by
  induction repainted generalizing depth with
  | nil => rfl
  | keep c _ ih =>
    simp only [Scan.solid, Bool.and_eq_true] at uncut ⊢
    exact ⟨uncut.1, ih uncut.2⟩
  | literal neutral isLiteral _ ih =>
    rw [solid_append, neutral.nestingAfter_eq, neutral.closed.after, Bool.and_eq_true] at uncut
    rw [solid_append, isLiteral.nestingAfter_eq, isLiteral.closed.after, isLiteral.solid]
    exact ih uncut.2
  | trans _ _ ihFirst ihSecond => exact ihSecond (ihFirst uncut)

/-! ### Ends -/

theorem eq_nil_iff : new = [] ↔ old = [] := by
  induction repainted with
  | nil => rfl
  | keep c _ ih => simp
  | literal neutral isLiteral _ ih => simp [neutral.ink, isLiteral.ink]
  | trans _ _ ihFirst ihSecond => exact ihSecond.trans ihFirst

theorem starts (inked : ∀ c ∈ old.head?, Text.isBlank c = false) :
    ∀ c ∈ new.head?, Text.isBlank c = false := by
  induction repainted with
  | nil => exact inked
  | keep c _ ih => exact inked
  | literal neutral isLiteral _ ih =>
    rw [Text.head?_append_of_ne_nil isLiteral.ink]
    exact isLiteral.trimmed.starts
  | trans _ _ ihFirst ihSecond => exact ihSecond (ihFirst inked)

theorem ends (inked : ∀ c ∈ old.getLast?, Text.isBlank c = false) :
    ∀ c ∈ new.getLast?, Text.isBlank c = false := by
  induction repainted with
  | nil => exact inked
  | @keep mode c old new rest ih =>
    -- The last character is the one kept exactly when nothing stands behind it.
    by_cases last : old = []
    · have none := rest.eq_nil_iff.mpr last
      rw [none]
      rwa [last] at inked
    · have some := mt rest.eq_nil_iff.mp last
      rw [← List.singleton_append, Text.getLast?_append_of_ne_nil _ last] at inked
      rw [← List.singleton_append, Text.getLast?_append_of_ne_nil _ some]
      exact ih inked
  | @literal covered written old new neutral isLiteral rest ih =>
    by_cases last : old = []
    · have none := rest.eq_nil_iff.mpr last
      rw [none, List.append_nil]
      exact isLiteral.trimmed.ends
    · have some := mt rest.eq_nil_iff.mp last
      rw [Text.getLast?_append_of_ne_nil _ last] at inked
      rw [Text.getLast?_append_of_ne_nil _ some]
      exact ih inked
  | trans _ _ ihFirst ihSecond => exact ihSecond (ihFirst inked)

/-! ### Characters -/

theorem avoids {stops : Text} (few : stops ⊆ strangers)
    (free : Text.Avoids stops old) : Text.Avoids stops new := by
  induction repainted with
  | nil => exact free
  | keep c _ ih =>
    simp only [Text.Avoids, List.forall_mem_cons] at free ⊢
    exact ⟨free.1, ih free.2⟩
  | literal _ isLiteral _ ih =>
    simp only [Text.Avoids, List.forall_mem_append] at free ⊢
    constructor
    · intro c member stop
      exact isLiteral.free c member (few stop)
    · exact ih free.2
  | trans _ _ ihFirst ihSecond => exact ihSecond (ihFirst free)

theorem ordinary (plain : ∀ c ∈ old, isOrdinary c = true) : ∀ c ∈ new, isOrdinary c = true := by
  have free : Text.Avoids ['\'', '"', '\\'] old := by
    intro c member
    exact Text.not_mem_of_kind (by decide) (plain c member)
  exact ordinary_of_avoids (repainted.avoids (by decide) free)

/-- A star comes first only where it came first. -/
theorem head?_of_star (star : new.head? = some '*') : old.head? = some '*' := by
  induction repainted with
  | nil => exact star
  | keep c _ ih => exact star
  | literal neutral isLiteral _ ih =>
    rw [Text.head?_append_of_ne_nil isLiteral.ink] at star
    exact absurd star isLiteral.start
  | trans _ _ ihFirst ihSecond => exact ihFirst (ihSecond star)

theorem commentFree (free : CommentFree old) : CommentFree new := by
  induction repainted with
  | nil => exact free
  | @keep mode c old new rest ih =>
    rw [CommentFree.cons_iff_of_head] at free ⊢
    constructor
    · rintro ⟨slash, star⟩
      exact free.1 ⟨slash, rest.head?_of_star star⟩
    · exact ih free.2
  | @literal covered written old new _ isLiteral _ ih =>
    have behind := free.of_part (List.suffix_append covered old).isInfix
    exact (ih behind).slashFree_append fun member => isLiteral.free _ member (by decide)
  | trans _ _ ihFirst ihSecond => exact ihSecond (ihFirst free)

/-- Text without the marks of a literal has not been repainted. -/
theorem eq_of_avoids (free : Text.Avoids ['#', '('] new) : old = new := by
  induction repainted with
  | nil => rfl
  | keep c _ ih =>
    simp only [Text.Avoids, List.forall_mem_cons] at free
    rw [ih free.2]
  | literal _ isLiteral _ ih =>
    simp only [Text.Avoids, List.forall_mem_append] at free
    rcases isLiteral.marked with mark | mark
    · exact absurd (free.1 _ mark) (by decide)
    · exact absurd (free.1 _ mark) (by decide)
  | trans _ _ ihFirst ihSecond =>
    have same := ihSecond free
    subst same
    exact ihFirst free

/-- What starts with an exclamation mark and holds no mark of a literal stands behind all literals,
so it ended the old text too. -/
theorem suffix_of_exclamation {last : Text} (suffix : last <:+ new)
    (start : last.head? = some '!') (free : Text.Avoids ['#', '('] last) : last <:+ old := by
  induction repainted with
  | nil => exact suffix
  | @keep mode c old new rest ih =>
    rcases List.suffix_cons_iff.mp suffix with whole | inner
    -- All of the text is free of marks, so nothing behind `c` is repainted.
    · rw [whole, Text.Avoids, List.forall_mem_cons] at free
      have same : last = c :: old := by rw [whole, rest.eq_of_avoids free.2]
      exact ⟨[], same⟩
    · exact (ih inner).trans (List.suffix_cons c old)
  | @literal covered written old new neutral isLiteral rest ih =>
    obtain ⟨front, parts⟩ := suffix
    rcases List.append_eq_append_iff.mp parts with ⟨part, ends, whole⟩ | ⟨gap, _, inner⟩
    -- Only an empty part of the literal can stand before the exclamation mark.
    · cases part with
      | nil =>
        have same : last = new := whole
        exact (ih (same ▸ List.suffix_refl _)).trans (List.suffix_append covered old)
      | cons c part =>
        have same : c = '!' := by simpa [whole] using start
        have member : '!' ∈ written := by simp [ends, same]
        exact absurd (isLiteral.free _ member) (by decide)
    · exact (ih ⟨gap, inner.symm⟩).trans (List.suffix_append covered old)
  | trans _ _ ihFirst ihSecond => exact ihFirst (ihSecond suffix)

theorem unmarked (plain : Declaration.dropImportant? old = none) :
    Declaration.dropImportant? new = none := by
  cases found : Declaration.dropImportant? new with
  | none => rfl
  | some value =>
    obtain ⟨blanks, word, blank, keyword, suffix, marks⟩ :=
      Declaration.exists_mark_of_dropImportant? found
    -- No mark of a literal is a blank or a letter of the word.
    have free : Text.Avoids ['#', '('] ('!' :: (blanks ++ word)) := by
      simp only [Text.Avoids, List.forall_mem_cons, List.forall_mem_append]
      refine ⟨by decide, ?_, ?_⟩
      · intro c member
        exact Text.not_mem_of_kind (by decide) (blank c member)
      · intro c member
        exact Text.avoids_of_isKeyword (by decide) keyword c (List.mem_reverse.mpr member)
    obtain ⟨before, whole⟩ := repainted.suffix_of_exclamation suffix rfl free
    rw [← whole, marks before] at plain
    exact absurd plain (by simp)

end Repainted

end ThemeCss.Dark
