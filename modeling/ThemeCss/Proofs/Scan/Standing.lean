import ThemeCss.Proofs.Scan.Chunks

/-!
# Where a scan stands

Blanks move when a declaration is read and written again, and the only thing a scan notices of it is
which character a pending backslash takes. So where a scan stands is told without the backslash: the
parentheses open and the string it is in. Trimming does not change that, and neither does inert text
behind it.
-/
namespace ThemeCss.Scan

/-- Where a scan stands behind a text, once a pending backslash has taken its character. -/
def standing (depth : Nat) (mode : Mode) (text : Text) : Nat × Mode :=
  (nestingAfter depth mode text, (mode.after text).settled)

theorem Whole.standing {text : Text} (whole : Whole text) :
    standing 0 .code text = (0, .code) := by
  rw [Scan.standing, whole.level, whole.closed.after, Mode.settled_code]

section standing

variable (depth : Nat) {mode : Mode} (sound : mode.Sound)
include sound

theorem standing_append_inert {inert : Text} (passes : ∀ c ∈ inert, isInert c = true)
    (text : Text) : standing depth mode (text ++ inert) = standing depth mode text := by
  have ordinary := fun c member => isOrdinary_of_isInert (passes c member)
  rw [standing, standing, nestingAfter_append, nestingAfter_of_inert passes, Mode.after_append]
  by_cases none : inert = []
  · rw [none, Mode.after_nil]
  · rw [(sound.after text).after_ordinary ordinary none, Mode.settled_settled]

/-- Inert text between two parts is all that the second part needs to know of the first. -/
theorem standing_between {inert : Text} (passes : ∀ c ∈ inert, isInert c = true)
    (ink : inert ≠ []) (first second : Text) :
    standing depth mode (first ++ (inert ++ second))
      = standing (standing depth mode first).1 (standing depth mode first).2 second := by
  have ordinary := fun c member => isOrdinary_of_isInert (passes c member)
  rw [standing, nestingAfter_append, nestingAfter_append, nestingAfter_of_inert passes,
    Mode.after_append, Mode.after_append, (sound.after first).after_ordinary ordinary ink]
  rfl

/-- Trimming is not noticed behind the text, unless a backslash is pending before it. -/
theorem standing_trim (settled : mode.settled = mode) (text : Text) :
    standing depth mode (Text.trim text) = standing depth mode text := by
  obtain ⟨before, after, left, right, parts⟩ := Text.exists_trim text
  have leading := fun c member => isInert_of_blank (left c member)
  have trailing := fun c member => isInert_of_blank (right c member)
  conv => rhs; rw [parts, standing_append_inert depth sound trailing]
  by_cases none : before = []
  · rw [none, List.nil_append]
  · have passed := standing_between depth sound leading none [] (Text.trim text)
    rw [List.nil_append] at passed
    rw [passed]
    simp only [standing, nestingAfter, Mode.after_nil, settled]

end standing

end ThemeCss.Scan
