import ThemeCss.Proofs.Scan.Balance
import ThemeCss.Proofs.Text.Join
import ThemeCss.Proofs.Text.Trim
import ThemeCss.Scan.Split

/-!
# Chunks of a block

A block is cut at the semicolons outside strings and parentheses. Between two of them stands solid
text, and whole text moreover leaves the scan as it found it. Whole texts joined by semicolons are
cut back into those texts, so a block that is written from whole declarations is read as them.
-/
namespace ThemeCss.Scan

/-- No semicolon cuts the text. -/
def solid (depth : Nat) (mode : Mode) : Text → Bool
  | [] => true
  | c :: rest =>
    !(mode.isCode && c == ';' && depth == 0) &&
      solid (nesting depth mode.isCode c) (mode.step c) rest

/-- The parentheses open behind a text. -/
def nestingAfter (depth : Nat) (mode : Mode) : Text → Nat
  | [] => depth
  | c :: rest => nestingAfter (nesting depth mode.isCode c) (mode.step c) rest

/-- Uncut, and neither a string nor a parenthesis is open behind it. -/
structure Whole (text : Text) : Prop where
  solid : solid 0 .code text = true
  level : nestingAfter 0 .code text = 0
  closed : Closed text

instance (text : Text) : Decidable (Whole text) :=
  decidable_of_iff (Scan.solid 0 .code text = true ∧ nestingAfter 0 .code text = 0 ∧ Closed text)
    ⟨fun ⟨solid, level, closed⟩ => ⟨solid, level, closed⟩,
      fun ⟨solid, level, closed⟩ => ⟨solid, level, closed⟩⟩

theorem solid_append {depth : Nat} {mode : Mode} {first second : Text} :
    solid depth mode (first ++ second)
      = (solid depth mode first &&
        solid (nestingAfter depth mode first) (mode.after first) second) := by
  induction first generalizing depth mode with
  | nil => simp [solid, nestingAfter]
  | cons c rest ih => simp [solid, nestingAfter, ih, Bool.and_assoc]

theorem nestingAfter_append {depth : Nat} {mode : Mode} {first second : Text} :
    nestingAfter depth mode (first ++ second)
      = nestingAfter (nestingAfter depth mode first) (mode.after first) second := by
  induction first generalizing depth mode with
  | nil => rfl
  | cons c rest ih => exact ih

theorem nesting_of_passes {mode : Mode} {c : Char}
    (opens : ¬(mode.isCode = true ∧ c = Bracket.round.opener))
    (closes : ¬(mode.isCode = true ∧ c = Bracket.round.closer)) (depth : Nat) :
    nesting depth mode.isCode c = depth := by
  simp only [Bracket.round] at opens closes
  simp [nesting, opens, closes]

/-- Where the count of parentheses does not fail, it goes the way of the nesting. -/
theorem depth?_cons {depth reached : Nat} {mode : Mode} {c : Char} {rest : Text}
    (counted : Bracket.round.depth? depth mode (c :: rest) = some reached) (text : Text) :
    Bracket.round.depth? depth mode (c :: text)
      = Bracket.round.depth? (nesting depth mode.isCode c) (mode.step c) text := by
  -- The nesting is clamped at zero and the count fails there: where it succeeds, the two agree.
  cases Bracket.counts_of_depth? counted with
  | opens => rfl
  | closes => rfl
  | passes opens closes =>
    rw [nesting_of_passes opens closes]
    simp only [Bracket.depth?]
    rw [if_neg opens, if_neg closes]

/-- Where parentheses have their partners, none is left open. -/
theorem nestingAfter_of_depth? {depth reached : Nat} {mode : Mode} {text : Text}
    (counts : Bracket.round.depth? depth mode text = some reached) :
    nestingAfter depth mode text = reached := by
  induction text generalizing depth mode with
  | nil => exact Option.some.inj counts
  | cons c rest ih => exact ih ((depth?_cons counts rest).symm.trans counts)

theorem nestingAfter_of_balanced {text : Text} (balanced : Bracket.round.Balanced text) :
    nestingAfter 0 .code text = 0 := nestingAfter_of_depth? balanced

/-- A text without semicolons is never cut. -/
theorem solid_of_free {text : Text} (free : ';' ∉ text) (depth : Nat) (mode : Mode) :
    solid depth mode text = true := by
  induction text generalizing depth mode with
  | nil => rfl
  | cons c rest ih =>
    simp only [List.mem_cons, not_or] at free
    have other : (c == ';') = false := beq_false_of_ne (Ne.symm free.1)
    simp [solid, other, ih free.2]

/-- Characters that neither cut nor nest nor quote. -/
def isInert (c : Char) : Bool := isOrdinary c && c != ';' && c != '(' && c != ')'

theorem nesting_of_inert {c : Char} (inert : isInert c = true) (depth : Nat) (live : Bool) :
    nesting depth live c = depth := by
  simp only [isInert, Bool.and_eq_true, bne_iff_ne] at inert
  simp [nesting, inert]

theorem nestingAfter_of_inert {text : Text} (inert : ∀ c ∈ text, isInert c = true) (depth : Nat)
    (mode : Mode) : nestingAfter depth mode text = depth := by
  induction text generalizing mode with
  | nil => rfl
  | cons c rest ih =>
    simp only [List.forall_mem_cons] at inert
    rw [nestingAfter, nesting_of_inert inert.1]
    exact ih inert.2 _

theorem isInert_of_not_mem {c : Char} (other : c ∉ ['\'', '"', '\\', ';', '(', ')']) :
    isInert c = true := by
  simp only [List.mem_cons, List.not_mem_nil, or_false, not_or] at other
  simp [isInert, isOrdinary, Mode.isQuote, other]

theorem inert_of_avoids {text : Text}
    (avoids : Text.Avoids ['\'', '"', '\\', ';', '(', ')'] text) :
    ∀ c ∈ text, isInert c = true := fun c member => isInert_of_not_mem (avoids c member)

theorem isOrdinary_of_isInert {c : Char} (inert : isInert c = true) : isOrdinary c = true := by
  simp only [isInert, Bool.and_eq_true] at inert
  exact inert.1.1.1

theorem solid_of_inert {text : Text} (inert : ∀ c ∈ text, isInert c = true) (depth : Nat)
    (mode : Mode) : solid depth mode text = true :=
  solid_of_free (fun member => absurd (inert _ member) (by decide)) depth mode

theorem whole_of_inert {text : Text} (inert : ∀ c ∈ text, isInert c = true) : Whole text :=
  ⟨solid_of_inert inert 0 .code, nestingAfter_of_inert inert 0 .code,
    closed_of_ordinary fun c member => isOrdinary_of_isInert (inert c member)⟩

theorem Whole.append {first second : Text} (left : Whole first) (right : Whole second) :
    Whole (first ++ second) := by
  refine ⟨?_, ?_, left.closed.append right.closed⟩
  · rw [solid_append, left.solid, left.level, left.closed.after, right.solid]
    rfl
  · rw [nestingAfter_append, left.level, left.closed.after, right.level]

theorem whole_nil : Whole [] := ⟨rfl, rfl, closed_nil⟩

theorem isInert_of_blank {c : Char} (blank : Text.isBlank c = true) : isInert c = true :=
  isInert_of_not_mem (Text.not_mem_of_kind (by decide) blank)

theorem isOrdinary_of_blank {c : Char} (blank : Text.isBlank c = true) : isOrdinary c = true :=
  isOrdinary_of_isInert (isInert_of_blank blank)

theorem closed_of_blank {text : Text} (blank : Text.Blank text) : Closed text :=
  closed_of_ordinary fun c member => isOrdinary_of_blank (blank c member)

theorem whole_of_blank {text : Text} (blank : Text.Blank text) : Whole text :=
  whole_of_inert fun c member => isInert_of_blank (blank c member)

/-- Behind inert text a scan goes on as if there were none, but for a pending backslash. -/
theorem solid_inert_append {depth : Nat} {mode : Mode} (sound : mode.Sound) {inert : Text}
    (passes : ∀ c ∈ inert, isInert c = true) (ink : inert ≠ []) (text : Text) :
    solid depth mode (inert ++ text) = solid depth mode.settled text := by
  have ordinary := fun c member => isOrdinary_of_isInert (passes c member)
  rw [solid_append, solid_of_inert passes, nestingAfter_of_inert passes,
    sound.after_ordinary ordinary ink, Bool.true_and]

theorem solid_blank_append {depth : Nat} {mode : Mode} (sound : mode.Sound)
    (settled : mode.settled = mode) {blanks : Text} (blank : Text.Blank blanks) (text : Text) :
    solid depth mode (blanks ++ text) = solid depth mode text := by
  by_cases none : blanks = []
  · rw [none, List.nil_append]
  · rw [solid_inert_append sound (fun c member => isInert_of_blank (blank c member)) none, settled]

/-- Trimming does not make a text cut, unless a backslash is pending before it. -/
theorem solid_trim {depth : Nat} {mode : Mode} (sound : mode.Sound)
    (settled : mode.settled = mode) {text : Text} (uncut : solid depth mode text = true) :
    solid depth mode (Text.trim text) = true := by
  -- The blanks in front leave the state as it is; those behind are not part of the trimmed text.
  obtain ⟨before, after, left, right, parts⟩ := Text.exists_trim text
  rw [parts, List.append_assoc, solid_blank_append sound settled left, solid_append,
    Bool.and_eq_true] at uncut
  exact uncut.1

/-! ### Cutting -/

/-- A text is cut nowhere, or first at a semicolon that stands in code and outside parentheses, and
then what follows is cut like a text of its own. -/
theorem chunksFrom_cases (depth : Nat) (mode : Mode) (text : Text) :
    (solid depth mode text = true ∧ chunksFrom depth mode text = [text]) ∨
      ∃ first rest, text = first ++ ';' :: rest ∧ solid depth mode first = true ∧
        nestingAfter depth mode first = 0 ∧ mode.after first = .code ∧
        chunksFrom depth mode text = first :: chunksFrom 0 .code rest := by
  induction text generalizing depth mode with
  | nil => exact .inl ⟨rfl, rfl⟩
  | cons c rest ih =>
    rw [chunksFrom]
    split
    next cuts =>
      obtain ⟨code, rfl, rfl⟩ := cuts
      obtain rfl := Mode.isCode_iff.mp code
      exact .inr ⟨[], rest, rfl, rfl, rfl, rfl, rfl⟩
    next passes =>
      have open' : (mode.isCode && c == ';' && depth == 0) = false := by
        simpa [and_assoc] using passes
      have grows : ∀ text, solid depth mode (c :: text)
          = solid (nesting depth mode.isCode c) (mode.step c) text := by
        intro text
        rw [solid, open', Bool.not_false, Bool.true_and]
      rcases ih (nesting depth mode.isCode c) (mode.step c) with
        ⟨uncut, parts⟩ | ⟨first, behind, rfl, uncut, level, code, parts⟩
      · exact .inl ⟨(grows rest).trans uncut, by rw [parts, growFirst]⟩
      · refine .inr ⟨c :: first, behind, rfl, (grows first).trans uncut, level, code, ?_⟩
        rw [parts, growFirst]

theorem chunksFrom_ne_nil (depth : Nat) (mode : Mode) (text : Text) :
    chunksFrom depth mode text ≠ [] := by
  rcases chunksFrom_cases depth mode text with ⟨_, parts⟩ | ⟨_, _, _, _, _, _, parts⟩
  · simp [parts]
  · simp [parts]

/-- A chunk is solid and stands behind closed text. -/
theorem exists_of_mem_chunksFrom {text chunk : Text} (listed : chunk ∈ chunksFrom 0 .code text) :
    solid 0 .code chunk = true ∧ ∃ front back, text = front ++ (chunk ++ back) ∧ Closed front := by
  rcases chunksFrom_cases 0 .code text with
    ⟨uncut, parts⟩ | ⟨first, rest, rfl, uncut, _, code, parts⟩
  · rw [parts, List.mem_singleton] at listed
    subst listed
    exact ⟨uncut, [], [], by simp, closed_nil⟩
  · rw [parts] at listed
    rcases List.mem_cons.mp listed with rfl | later
    · exact ⟨uncut, [], ';' :: rest, rfl, closed_nil⟩
    · obtain ⟨uncut, front, back, rfl, closed⟩ := exists_of_mem_chunksFrom later
      refine ⟨uncut, first ++ ';' :: front, back, by simp, ?_⟩
      rw [Closed, Mode.after_append, code]
      exact closed
termination_by text.length

/-- Behind every chunk but the last a semicolon cut, so these chunks are whole. -/
theorem whole_of_mem_dropLast {text chunk : Text}
    (member : chunk ∈ (chunksFrom 0 .code text).dropLast) : Whole chunk := by
  rcases chunksFrom_cases 0 .code text with
    ⟨_, parts⟩ | ⟨first, rest, rfl, uncut, level, code, parts⟩
  · rw [parts] at member
    cases member
  · rw [parts, List.dropLast_cons_of_ne_nil (chunksFrom_ne_nil 0 .code rest)] at member
    rcases List.mem_cons.mp member with rfl | later
    · exact ⟨uncut, level, code⟩
    · exact whole_of_mem_dropLast later
termination_by text.length

/-- Solid text in front grows the first chunk. -/
theorem chunksFrom_append {depth : Nat} {mode : Mode} {first : Text}
    (uncut : solid depth mode first = true) (second : Text) :
    ∃ head others,
      chunksFrom (nestingAfter depth mode first) (mode.after first) second = head :: others ∧
      chunksFrom depth mode (first ++ second) = (first ++ head) :: others := by
  induction first generalizing depth mode with
  | nil =>
    obtain ⟨head, others, parts⟩ :=
      List.exists_cons_of_ne_nil (chunksFrom_ne_nil depth mode second)
    exact ⟨head, others, parts, parts⟩
  | cons c rest ih =>
    simp only [solid, Bool.and_eq_true, Bool.not_eq_true'] at uncut
    obtain ⟨head, others, parts, grown⟩ := ih uncut.2
    refine ⟨head, others, parts, ?_⟩
    -- No semicolon of `first` cuts, so each character joins the chunk that is open.
    have passes : ¬(mode.isCode = true ∧ c = ';' ∧ depth = 0) := by
      simpa [and_assoc] using uncut.1
    rw [List.cons_append, chunksFrom, if_neg passes, grown]
    rfl

theorem chunksFrom_of_solid {text : Text} (uncut : solid 0 .code text = true) :
    chunksFrom 0 .code text = [text] := by
  obtain ⟨head, others, parts, grown⟩ := chunksFrom_append uncut []
  simp only [chunksFrom, List.cons.injEq] at parts
  simpa [← parts.1, ← parts.2] using grown

/-- A semicolon behind whole text ends a chunk. -/
theorem chunksFrom_whole {text : Text} (whole : Whole text) (rest : Text) :
    chunksFrom 0 .code (text ++ ';' :: rest) = text :: chunksFrom 0 .code rest := by
  obtain ⟨head, others, parts, grown⟩ := chunksFrom_append whole.solid (';' :: rest)
  rw [whole.level, whole.closed.after, chunksFrom, if_pos ⟨rfl, rfl, rfl⟩] at parts
  simp only [List.cons.injEq] at parts
  rw [grown, ← parts.1, ← parts.2, List.append_nil]

/-- Blanks behind a text grow its last chunk. -/
theorem chunksFrom_append_blank {blanks : Text} (blank : Text.Blank blanks) (depth : Nat)
    (mode : Mode) (text : Text) :
    ∃ before last, chunksFrom depth mode text = before ++ [last] ∧
      chunksFrom depth mode (text ++ blanks) = before ++ [last ++ blanks] := by
  induction text generalizing depth mode with
  | nil =>
    have free : ';' ∉ blanks := fun member => absurd (blank _ member) (by decide)
    obtain ⟨head, others, parts, grown⟩ := chunksFrom_append (solid_of_free free depth mode) []
    simp only [chunksFrom, List.cons.injEq] at parts
    exact ⟨[], [], rfl, by simpa [← parts.1, ← parts.2] using grown⟩
  | cons c rest ih =>
    rw [List.cons_append, chunksFrom, chunksFrom]
    split
    · obtain ⟨before, last, parts, grown⟩ := ih 0 mode
      exact ⟨[] :: before, last, by rw [parts]; rfl, by rw [grown]; rfl⟩
    · obtain ⟨before, last, parts, grown⟩ := ih (nesting depth mode.isCode c) (mode.step c)
      rw [parts, grown]
      -- The only chunk grows at both ends, the last of several only on the right.
      cases before with
      | nil => exact ⟨[], c :: last, rfl, rfl⟩
      | cons first before => exact ⟨(c :: first) :: before, last, rfl, rfl⟩

/-! ### Chunks -/

/-- The chunk that a solid text is, if it is not blank. -/
def ownChunk (text : Text) : List Text := [Text.trim text].filter (!·.isEmpty)

theorem chunks_of_solid {text : Text} (uncut : solid 0 .code text = true) :
    chunks text = ownChunk text := by
  rw [chunks, chunksFrom_of_solid uncut]
  rfl

theorem chunks_whole {text : Text} (whole : Whole text) (rest : Text) :
    chunks (text ++ ';' :: rest) = ownChunk text ++ chunks rest := by
  rw [chunks, chunksFrom_whole whole, List.map_cons, ← List.singleton_append, List.filter_append]
  rfl

theorem chunks_blank_append {blanks : Text} (blank : Text.Blank blanks) (text : Text) :
    chunks (blanks ++ text) = chunks text := by
  have whole := whole_of_blank blank
  obtain ⟨head, others, parts, grown⟩ := chunksFrom_append whole.solid text
  rw [whole.level, whole.closed.after] at parts
  simp only [chunks, parts, grown, List.map_cons, Text.trim_blank_append blank]

theorem chunks_append_blank {blanks : Text} (blank : Text.Blank blanks) (text : Text) :
    chunks (text ++ blanks) = chunks text := by
  obtain ⟨before, last, parts, grown⟩ := chunksFrom_append_blank blank 0 .code text
  simp only [chunks, parts, grown, List.map_append, List.map_cons, Text.trim_append_blank blank]

theorem chunks_of_blank {text : Text} (blank : Text.Blank text) : chunks text = [] := by
  rw [chunks_of_solid (whole_of_blank blank).solid, ownChunk, Text.trim_of_blank blank]
  rfl

theorem ownChunk_nil : ownChunk [] = [] := rfl

theorem flatMap_ownChunk {parts : List Text}
    (inked : ∀ part ∈ parts, part ≠ [] ∧ Text.Trimmed part) : parts.flatMap ownChunk = parts := by
  induction parts with
  | nil => rfl
  | cons part others ih =>
    simp only [List.forall_mem_cons] at inked
    rw [List.flatMap_cons, ih inked.2, ownChunk, Text.trim_of_trimmed inked.1.2]
    simp [inked.1.1]

theorem chunks_trim (text : Text) : chunks (Text.trim text) = chunks text := by
  obtain ⟨before, after, left, right, parts⟩ := Text.exists_trim text
  conv => rhs; rw [parts, chunks_append_blank right, chunks_blank_append left]

/-- Texts joined by semicolons are the chunks of the joined text if all but the last are whole. -/
theorem chunks_join_concat {blanks : Text} (blank : Text.Blank blanks) {parts : List Text}
    (whole : ∀ part ∈ parts, Whole part) {last : Text} (uncut : solid 0 .code last = true) :
    chunks (Text.join (';' :: blanks) (parts ++ [last])) = (parts ++ [last]).flatMap ownChunk := by
  induction parts with
  | nil => simpa [Text.join] using chunks_of_solid uncut
  | cons part others ih =>
    simp only [List.forall_mem_cons] at whole
    obtain ⟨next, rest, behind⟩ : ∃ next rest, others ++ [last] = next :: rest :=
      List.exists_cons_of_ne_nil (by simp)
    -- The first part is whole, so its semicolon cuts; the blanks of the glue are trimmed away.
    rw [List.cons_append, List.flatMap_cons, ← ih whole.2, behind, Text.join_cons_cons,
      List.cons_append, chunks_whole whole.1, chunks_blank_append blank]

/-- Whole texts joined by semicolons are the chunks of the joined text. -/
theorem chunks_join {blanks : Text} (blank : Text.Blank blanks) {parts : List Text}
    (whole : ∀ part ∈ parts, Whole part) :
    chunks (Text.join (';' :: blanks) parts) = parts.flatMap ownChunk := by
  rcases List.eq_nil_or_concat parts with rfl | ⟨others, last, rfl⟩
  · exact chunks_of_blank Text.blank_nil
  · rw [List.concat_eq_append] at whole ⊢
    simp only [List.forall_mem_append, List.forall_mem_singleton] at whole
    exact chunks_join_concat blank whole.1 whole.2.solid

/-! ### What a chunk holds -/

theorem exists_mem_chunksFrom {text : Text} {c : Char} (member : c ∈ text) (other : c ≠ ';')
    (depth : Nat) (mode : Mode) : ∃ chunk ∈ chunksFrom depth mode text, c ∈ chunk := by
  induction text generalizing depth mode with
  | nil => simp at member
  | cons d rest ih =>
    rw [chunksFrom]
    split
    -- The cut itself takes a semicolon away and nothing else.
    next cuts =>
      rcases List.mem_cons.mp member with rfl | member
      · exact absurd cuts.2.1 other
      · obtain ⟨chunk, listed, held⟩ := ih member 0 mode
        exact ⟨chunk, List.mem_cons_of_mem _ listed, held⟩
    next =>
      obtain ⟨first, others, parts⟩ := List.exists_cons_of_ne_nil
        (chunksFrom_ne_nil (nesting depth mode.isCode d) (mode.step d) rest)
      rw [parts, growFirst]
      rcases List.mem_cons.mp member with rfl | member
      · exact ⟨c :: first, by simp⟩
      · obtain ⟨chunk, listed, held⟩ := ih member (nesting depth mode.isCode d) (mode.step d)
        rw [parts] at listed
        rcases List.mem_cons.mp listed with rfl | listed
        · exact ⟨d :: chunk, by simp, List.mem_cons_of_mem _ held⟩
        · exact ⟨chunk, List.mem_cons_of_mem _ listed, held⟩

/-- Ink that is no semicolon stands in some chunk. -/
theorem exists_mem_chunks {text : Text} {c : Char} (member : c ∈ text)
    (ink : Text.isBlank c = false) (other : c ≠ ';') : ∃ chunk ∈ chunks text, c ∈ chunk := by
  obtain ⟨chunk, listed, held⟩ := exists_mem_chunksFrom member other 0 .code
  have kept := Text.mem_trim_of_ink held ink
  refine ⟨Text.trim chunk, ?_, kept⟩
  simp only [chunks, List.mem_filter, List.mem_map]
  exact ⟨⟨chunk, listed, rfl⟩, by simpa using List.ne_nil_of_mem kept⟩

/-- A chunk is the trimmed form of a solid part of its text, and not empty. -/
theorem exists_of_mem_chunks {text chunk : Text} (listed : chunk ∈ chunks text) :
    ∃ part, part <:+: text ∧ solid 0 .code part = true ∧ chunk = Text.trim part ∧ chunk ≠ [] := by
  simp only [chunks, List.mem_filter, List.mem_map] at listed
  -- Trimming happens after the cut, so the chunk comes from an untrimmed part of the text.
  obtain ⟨⟨part, cut, rfl⟩, ink⟩ := listed
  obtain ⟨uncut, front, back, rfl, _⟩ := exists_of_mem_chunksFrom cut
  exact ⟨part, ⟨front, back, by simp⟩, uncut, rfl, by simpa using ink⟩

/-- A chunk stands behind a closed text. -/
theorem exists_front_of_mem_chunks {text chunk : Text} (listed : chunk ∈ chunks text) :
    ∃ front back, text = front ++ (chunk ++ back) ∧ Closed front := by
  simp only [chunks, List.mem_filter, List.mem_map] at listed
  obtain ⟨⟨part, cut, rfl⟩, _⟩ := listed
  obtain ⟨_, front, back, rfl, code⟩ := exists_of_mem_chunksFrom cut
  obtain ⟨before, after, left, _, trimmed⟩ := Text.exists_trim part
  refine ⟨front ++ before, after ++ back, ?_, code.append (closed_of_blank left)⟩
  conv => lhs; rw [trimmed]
  simp

end ThemeCss.Scan
