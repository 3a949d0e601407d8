import ThemeCss.Proofs.Scan.Chunks
import ThemeCss.Proofs.Scan.Commented

/-!
# Components of a value

A value that closes its strings and parentheses is cut at blanks where none of them is open. So each
component closes its own strings and parentheses, and there are no blanks at its ends.
-/
namespace ThemeCss.Scan

/-- Without backslashes a value is read in the mode of any other scan. -/
theorem step_eq_quoteAfter (quote : Option Char) {c : Char} (plain : c ≠ '\\') :
    Mode.step ⟨quote, false⟩ c = ⟨quoteAfter quote c, false⟩ := by
  cases quote with
  | none =>
    simp only [Mode.step, quoteAfter, plain, Bool.false_eq_true, if_false]
    split <;> rfl
  | some opened =>
    simp only [Mode.step, quoteAfter, plain, Bool.false_eq_true, if_false]
    split <;> rfl

theorem quoteAfter_of_ordinary {c : Char} (ordinary : isOrdinary c = true) :
    quoteAfter none c = none := by
  simp only [isOrdinary, Bool.and_eq_true, Bool.not_eq_true'] at ordinary
  simp [quoteAfter, ordinary]

theorem solid_cons (quote : Option Char) {depth : Nat} {c : Char} {rest : Text} (plain : c ≠ '\\') :
    solid depth ⟨quote, false⟩ (c :: rest)
      = (!(quote.isNone && c == ';' && depth == 0) &&
        solid (nesting depth quote.isNone c) ⟨quoteAfter quote c, false⟩ rest) := by
  have live : Mode.isCode ⟨quote, false⟩ = quote.isNone := Bool.and_true _
  rw [solid, live, step_eq_quoteAfter quote plain]

/-- What cutting a value at its blanks keeps: `Ahead` is known of the text ahead and stays known
behind each character, and `Part` is shown of the part that the cut is in, from its end to its
start. -/
structure Cuts (Ahead Part : Nat → Option Char → Text → Prop) : Prop where
  nil : ∀ {depth quote}, Ahead depth quote [] → Part depth quote []
  cut : Part 0 none []
  behind : ∀ {depth quote c rest}, Ahead depth quote (c :: rest) →
    Ahead (nesting depth quote.isNone c) (quoteAfter quote c) rest
  cons : ∀ {depth quote c rest part}, Ahead depth quote (c :: rest) →
    ¬(quote.isNone = true ∧ Text.isBlank c = true ∧ depth = 0) →
    Part (nesting depth quote.isNone c) (quoteAfter quote c) part → Part depth quote (c :: part)

namespace Cuts

variable {Ahead Part : Nat → Option Char → Text → Prop}

/-- The first part starts where the text does, and each part behind it in code. -/
theorem exists_componentsFrom (cuts : Cuts Ahead Part) {depth : Nat} {quote : Option Char}
    {text : Text} (ahead : Ahead depth quote text) :
    ∃ first others, componentsFrom depth quote text = first :: others ∧
      Part depth quote first ∧ ∀ part ∈ others, Part 0 none part := by
  induction text generalizing depth quote with
  | nil => exact ⟨[], [], rfl, cuts.nil ahead, by simp⟩
  | cons c rest ih =>
    obtain ⟨first, others, parts, starts, later⟩ := ih (cuts.behind ahead)
    rw [componentsFrom]
    split
    next blanks =>
      obtain ⟨outside, blank, rfl⟩ := blanks
      obtain rfl : quote = none := Option.isNone_iff_eq_none.mp outside
      -- The blank opens and closes nothing, so the next part starts where this one did.
      have inert := isInert_of_blank blank
      rw [nesting_of_inert inert, quoteAfter_of_ordinary (isOrdinary_of_isInert inert)]
        at parts starts
      refine ⟨[], first :: others, by rw [parts], cuts.cut, ?_⟩
      exact List.forall_mem_cons.mpr ⟨starts, later⟩
    next uncut =>
      exact ⟨c :: first, others, by rw [parts, growFirst], cuts.cons ahead uncut starts, later⟩

theorem of_mem_components (cuts : Cuts Ahead Part) {value part : Text}
    (ahead : Ahead 0 none value) (listed : part ∈ components value) : Part 0 none part := by
  obtain ⟨cut, _⟩ := List.mem_filter.mp listed
  obtain ⟨first, others, parts, starts, later⟩ := cuts.exists_componentsFrom ahead
  rw [parts] at cut
  rcases List.mem_cons.mp cut with rfl | cut
  · exact starts
  · exact later part cut

end Cuts

theorem mem_of_mem_components {value part : Text} (listed : part ∈ components value) :
    ∀ c ∈ part, c ∈ value := by
  have cuts : Cuts (fun _ _ text => text ⊆ value) (fun _ _ part => part ⊆ value) := by
    refine ⟨id, List.nil_subset value, ?_, ?_⟩
    · intro _ _ _ _ held
      exact (List.cons_subset.mp held).2
    · intro _ _ _ _ _ held _ inside
      exact List.cons_subset.mpr ⟨(List.cons_subset.mp held).1, inside⟩
  exact cuts.of_mem_components (List.Subset.refl value) listed

/-- Cutting at blanks brings no semicolon into the open. -/
theorem solid_of_mem_components {value part : Text} (plain : '\\' ∉ value)
    (uncut : solid 0 .code value = true) (listed : part ∈ components value) :
    solid 0 .code part = true := by
  have cuts : Cuts (fun depth quote text => '\\' ∉ text ∧ solid depth ⟨quote, false⟩ text = true)
      (fun depth quote part => solid depth ⟨quote, false⟩ part = true) := by
    refine ⟨And.right, rfl, ?_, ?_⟩
    · rintro depth quote c rest ⟨plain, uncut⟩
      rw [List.mem_cons, not_or] at plain
      rw [solid_cons quote (Ne.symm plain.1), Bool.and_eq_true] at uncut
      exact ⟨plain.2, uncut.2⟩
    · rintro depth quote c rest part ⟨plain, uncut⟩ _ starts
      rw [List.mem_cons, not_or] at plain
      rw [solid_cons quote (Ne.symm plain.1), Bool.and_eq_true] at uncut ⊢
      exact ⟨uncut.1, starts⟩
  exact cuts.of_mem_components ⟨plain, uncut⟩ listed

/-- The text ahead closes the strings and the parentheses that are open before it. -/
structure Closing (depth : Nat) (quote : Option Char) (text : Text) : Prop where
  sound : Mode.Sound ⟨quote, false⟩
  plain : '\\' ∉ text
  balanced : Bracket.round.depth? depth ⟨quote, false⟩ text = some 0
  closed : Mode.after ⟨quote, false⟩ text = .code

theorem Closing.behind {depth : Nat} {quote : Option Char} {c : Char} {rest : Text}
    (closing : Closing depth quote (c :: rest)) :
    Closing (nesting depth quote.isNone c) (quoteAfter quote c) rest := by
  have live : Mode.isCode ⟨quote, false⟩ = quote.isNone := Bool.and_true _
  obtain ⟨sound, plain, balanced, closed⟩ := closing
  rw [List.mem_cons, not_or] at plain
  have step := step_eq_quoteAfter quote (Ne.symm plain.1)
  refine ⟨step ▸ sound.step c, plain.2, ?_, ?_⟩
  · rw [← balanced, depth?_cons balanced, live, step]
  · rw [← closed, Mode.after_cons, step]

/-- A part that closes what a scan enters it with, and has no blanks at its ends. -/
structure Finishes (depth : Nat) (quote : Option Char) (part : Text) : Prop where
  balanced : Bracket.round.depth? depth ⟨quote, false⟩ part = some 0
  closed : Mode.after ⟨quote, false⟩ part = .code
  starts : depth = 0 → quote = none → ∀ c ∈ part.head?, Text.isBlank c = false
  ends : ∀ c ∈ part.getLast?, Text.isBlank c = false

/-- A character in front, unless it is a blank at which the value is cut. -/
theorem Finishes.cons {depth : Nat} {quote : Option Char} {c : Char} {rest part : Text}
    (closing : Closing depth quote (c :: rest))
    (uncut : ¬(quote.isNone = true ∧ Text.isBlank c = true ∧ depth = 0))
    (finishes : Finishes (nesting depth quote.isNone c) (quoteAfter quote c) part) :
    Finishes depth quote (c :: part) := by
  have live : Mode.isCode ⟨quote, false⟩ = quote.isNone := Bool.and_true _
  have step := step_eq_quoteAfter quote fun same =>
    closing.plain (same ▸ List.mem_cons_self ..)
  refine ⟨?_, ?_, ?_, ?_⟩
  · rw [depth?_cons closing.balanced, live, step]
    exact finishes.balanced
  · rw [Mode.after_cons, step]
    exact finishes.closed
  · rintro rfl rfl d first
    obtain rfl : c = d := Option.some.inj first
    simpa using uncut
  · intro d last
    cases part with
    | cons e tail => exact finishes.ends d (by rwa [List.getLast?_cons_cons] at last)
    | nil =>
      obtain rfl : c = d := Option.some.inj last
      -- A blank changes neither, so both were closed before it, and the value is cut there.
      cases blank : Text.isBlank c with
      | false => rfl
      | true =>
        have inert := isInert_of_blank blank
        have level := finishes.balanced
        have closed := finishes.closed
        rw [nesting_of_inert inert] at level
        rw [← step, closing.sound.step_ordinary (isOrdinary_of_isInert inert)] at closed
        have outside : quote = none := congrArg Mode.quote closed
        exact absurd ⟨by rw [outside]; rfl, blank, Option.some.inj level⟩ uncut

theorem cuts_finishes : Cuts Closing Finishes where
  nil := fun closing => ⟨closing.balanced, closing.closed, by simp, by simp⟩
  cut := ⟨rfl, rfl, by simp, by simp⟩
  behind := Closing.behind
  cons := Finishes.cons

/-- The components of a value that closes its strings and parentheses do so too, and they are not
empty and have no blanks at their ends. -/
theorem of_mem_components {value part : Text} (plain : '\\' ∉ value) (closed : Closed value)
    (balanced : Bracket.round.Balanced value) (listed : part ∈ components value) :
    part ≠ [] ∧ Text.Trimmed part ∧ Bracket.round.Balanced part ∧ Closed part ∧
      ∀ c ∈ part, c ∈ value := by
  have finishes : Finishes 0 none part :=
    cuts_finishes.of_mem_components ⟨Mode.sound_code, plain, balanced, closed⟩ listed
  have ink : part ≠ [] := by simpa using (List.mem_filter.mp listed).2
  exact ⟨ink, ⟨finishes.starts rfl rfl, finishes.ends⟩, finishes.balanced, finishes.closed,
    mem_of_mem_components listed⟩

end ThemeCss.Scan
