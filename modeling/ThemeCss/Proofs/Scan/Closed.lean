import ThemeCss.Proofs.Text.Join
import ThemeCss.Proofs.Text.Search
import ThemeCss.Scan.Mode

/-!
# Closed texts

A text is closed when a scan that enters it in code leaves it in code: every string it opens ends
inside it and no backslash is pending behind it. Closed texts can stand side by side without one
changing how the next is read, which is what every search that resumes in code relies on.
-/
namespace ThemeCss.Scan

namespace Mode

@[simp] theorem isCode_code : code.isCode = true := rfl

theorem isCode_iff {mode : Mode} : mode.isCode = true ↔ mode = code := by
  obtain ⟨quote, escaped⟩ := mode
  cases quote <;> cases escaped <;> simp [isCode, code]

@[simp] theorem after_nil (mode : Mode) : mode.after [] = mode := rfl

@[simp] theorem after_cons (mode : Mode) (c : Char) (text : Text) :
    mode.after (c :: text) = (mode.step c).after text := rfl

/-- The mode once a pending backslash has taken its character. -/
def settled (mode : Mode) : Mode := { mode with escaped := false }

@[simp] theorem settled_code : code.settled = code := rfl

@[simp] theorem settled_settled (mode : Mode) : mode.settled.settled = mode.settled := rfl

theorem eq_of_isQuote {c : Char} (quote : isQuote c = true) : c = '\'' ∨ c = '"' := by
  simpa only [isQuote, Bool.or_eq_true, beq_iff_eq] using quote

/-- Only a quote opens a string. -/
def Sound (mode : Mode) : Prop := ∀ quote ∈ mode.quote, isQuote quote = true

theorem sound_code : code.Sound := by simp [Sound, code]

theorem Sound.step {mode : Mode} (sound : mode.Sound) (c : Char) : (mode.step c).Sound := by
  -- A step keeps the open quote, closes it, or opens a character that it has seen to be one.
  simp only [Mode.step]
  split
  · exact sound
  · split
    · exact sound
    · split
      · split
        · exact sound_code
        · exact sound
      · split
        next quote => simpa [Sound] using quote
        next => exact sound

theorem Sound.after {mode : Mode} (sound : mode.Sound) (text : Text) : (mode.after text).Sound := by
  induction text generalizing mode with
  | nil => exact sound
  | cons c rest ih => exact ih (sound.step c)

theorem Sound.settled {mode : Mode} (sound : mode.Sound) : mode.settled.Sound := sound

end Mode

/-- Neither a quote nor a backslash, so reading it in code changes nothing. -/
def isOrdinary (c : Char) : Bool := !Mode.isQuote c && c != '\\'

theorem isOrdinary_of_not_mem {c : Char} (other : c ∉ ['\'', '"', '\\']) : isOrdinary c = true := by
  simp only [List.mem_cons, List.not_mem_nil, or_false, not_or] at other
  simp [isOrdinary, Mode.isQuote, other]

theorem ordinary_of_avoids {text : Text} (avoids : Text.Avoids ['\'', '"', '\\'] text) :
    ∀ c ∈ text, isOrdinary c = true := fun c member => isOrdinary_of_not_mem (avoids c member)

/-- Reading an ordinary character only takes a pending backslash away. -/
theorem Mode.step_ordinary {mode : Mode} {c : Char} (ordinary : isOrdinary c = true)
    (keeps : mode.quote ≠ some c) : mode.step c = mode.settled := by
  obtain ⟨quote, escaped⟩ := mode
  simp only [isOrdinary, Bool.and_eq_true, Bool.not_eq_true', bne_iff_ne] at ordinary
  cases escaped with
  -- The backslash takes this character, whatever it is.
  | true => simp [Mode.step, Mode.settled]
  | false =>
    cases quote with
    | none => simp [Mode.step, Mode.settled, ordinary]
    | some q =>
      have other : c ≠ q := fun same => keeps (by simp [same])
      simp [Mode.step, Mode.settled, ordinary, other]

theorem Mode.Sound.step_ordinary {mode : Mode} (sound : mode.Sound) {c : Char}
    (ordinary : isOrdinary c = true) : mode.step c = mode.settled := by
  apply Mode.step_ordinary ordinary
  intro opened
  have quoted := sound c opened
  simp [isOrdinary, quoted] at ordinary

/-- Reading ordinary text takes a pending backslash away and changes nothing else. -/
theorem Mode.Sound.after_ordinary {mode : Mode} (sound : mode.Sound) {text : Text}
    (ordinary : ∀ c ∈ text, isOrdinary c = true) (ink : text ≠ []) :
    mode.after text = mode.settled := by
  induction text generalizing mode with
  | nil => exact absurd rfl ink
  | cons c rest ih =>
    simp only [List.forall_mem_cons] at ordinary
    rw [Mode.after_cons, sound.step_ordinary ordinary.1]
    -- Only the first character can meet a pending backslash.
    by_cases last : rest = []
    · rw [last, Mode.after_nil]
    · exact ih sound.settled ordinary.2 last

@[simp] theorem Mode.step_code_ordinary {c : Char} (ordinary : isOrdinary c = true) :
    Mode.code.step c = Mode.code :=
  Mode.step_ordinary ordinary (by simp [Mode.code])

/-- A scan that enters the text in code leaves it in code. -/
def Closed (text : Text) : Prop := Mode.code.after text = Mode.code

instance (text : Text) : Decidable (Closed text) := inferInstanceAs (Decidable (_ = _))

theorem closed_nil : Closed [] := rfl

theorem Closed.after {text : Text} (closed : Closed text) : Mode.code.after text = Mode.code :=
  closed

theorem Closed.append {first second : Text} (left : Closed first) (right : Closed second) :
    Closed (first ++ second) := by
  rw [Closed, Mode.after_append, left.after, right.after]

theorem Closed.join {glue : Text} (glued : Closed glue) {parts : List Text}
    (each : ∀ part ∈ parts, Closed part) : Closed (Text.join glue parts) :=
  Text.intercalate_induction closed_nil (fun _ _ => Closed.append) glued each

theorem closed_append_iff {first second : Text} (left : Closed first) :
    Closed (first ++ second) ↔ Closed second := by
  rw [Closed, Closed, Mode.after_append, left.after]

theorem closed_cons {c : Char} (ordinary : isOrdinary c = true) {text : Text} :
    Closed (c :: text) ↔ Closed text := by
  rw [Closed, Closed, Mode.after_cons, Mode.step_code_ordinary ordinary]

theorem closed_of_ordinary {text : Text} (ordinary : ∀ c ∈ text, isOrdinary c = true) :
    Closed text := by
  induction text with
  | nil => exact closed_nil
  | cons c rest ih =>
    simp only [List.forall_mem_cons] at ordinary
    exact (closed_cons ordinary.1).mpr (ih ordinary.2)

/-- A closed character leaves code as it is. -/
theorem Closed.cons {c : Char} (ordinary : isOrdinary c = true) {text : Text}
    (closed : Closed text) : Closed (c :: text) :=
  (closed_cons ordinary).mpr closed

end ThemeCss.Scan
