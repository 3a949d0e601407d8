import ThemeCss.Proofs.Scan.Standing
import ThemeCss.Proofs.Variables.Drop

/-!
# Blocks without custom declarations

A chunk is read as a custom declaration when it starts with two hyphens, and a block is cut into
chunks at semicolons. What a rule keeps is written declaration by declaration, and each of them but
the last leaves the scan where it found it, but for a backslash that takes the semicolon. So the
kept body is cut where a kept declaration starts, if at all, and shows no custom declaration.
-/
namespace ThemeCss.Sheet

open Scan Variables

namespace Declaration

/-! ### Where a scan stands behind a declaration -/

/-- A closing mark holds nothing that a scan looks for. -/
theorem isInert_of_mem_mark {blanks word : Text} (blank : Text.Blank blanks)
    (keyword : Text.isKeyword "important".toList.reverse word.reverse = true) :
    ∀ c ∈ '!' :: (blanks ++ word), isInert c = true := by
  simp only [List.forall_mem_cons, List.forall_mem_append]
  refine ⟨rfl, fun c member => isInert_of_blank (blank c member), ?_⟩
  intro c member
  have plain := inert_of_avoids (Text.avoids_of_isKeyword (by decide) keyword)
  exact plain c (List.mem_reverse.mpr member)

section standing

variable (depth : Nat) {mode : Mode} (sound : mode.Sound) (settled : mode.settled = mode)
include sound settled

/-- A scan stands behind a value as it stands behind the text it was read from. -/
theorem standing_value {name : Text} (free : ':' ∉ name) (rest : Text) :
    standing depth mode (parse (name ++ ':' :: rest)).value = standing depth mode rest := by
  rw [← standing_trim depth sound settled rest, parse_of_colon free]
  cases found : dropImportant? (Text.trim rest) with
  | none => rfl
  | some plain =>
    obtain ⟨blanks, word, blank, keyword, ⟨before, parts⟩, marks⟩ :=
      exists_mark_of_dropImportant? found
    -- The mark that is taken off is inert, and so are the blanks trimmed off before it.
    have same : plain = Text.trim before := by
      rw [← parts, marks before] at found
      exact (Option.some.inj found).symm
    rw [← parts, standing_append_inert depth sound (isInert_of_mem_mark blank keyword), same]
    exact standing_trim depth sound settled before

end standing

/-- The value is scanned from where the property leaves the scan, whatever is written between. -/
theorem standing_write (declaration : Declaration) :
    standing 0 .code declaration.write
      = standing (standing 0 .code declaration.property).1
          (standing 0 .code declaration.property).2 declaration.value := by
  have start := Mode.sound_code
  have sound := (start.after declaration.property).settled
  cases wellFormed : declaration.isMalformed with
  | true =>
    rcases malformed_cases wellFormed with unnamed | unvalued
    · rw [write_of_unnamed unnamed, unnamed]
      rfl
    · rw [write_of_unvalued unvalued, unvalued]
      rfl
  | false =>
    have colon : ∀ c ∈ [':', ' '], isInert c = true := List.all_eq_true.mp rfl
    have marked : ∀ c ∈ if declaration.important then mark else [], isInert c = true := by
      split
      · exact List.all_eq_true.mp rfl
      · simp
    rw [write_of_wellFormed wellFormed]
    refine (standing_between 0 start colon (by simp) _ _).trans ?_
    exact standing_append_inert _ sound marked _

/-- Reading a chunk and writing it only moves blanks, so a scan stands where it stood. -/
theorem standing_reread (chunk : Text) :
    standing 0 .code (parse chunk).write = standing 0 .code chunk := by
  have start := Mode.sound_code
  rcases colon_cases chunk with free | ⟨name, rest, free, rfl⟩
  · rw [parse_of_colonFree free, write_of_unvalued rfl]
    exact standing_trim 0 start rfl chunk
  · have colon : ∀ c ∈ [':'], isInert c = true := List.all_eq_true.mp rfl
    have read := standing_between 0 start colon (by simp) name rest
    rw [List.singleton_append] at read
    rw [standing_write, (parse_colon_cases free rest).1, standing_trim 0 start rfl, read]
    exact standing_value _ (start.after name).settled rfl free rest

end Declaration

/-! ### Chunks that start like custom declarations -/

/-- Whether the first ink of a text is that of a custom name. -/
def startsCustom (text : Text) : Bool := Declaration.isCustomName (Text.trimLeft text)

/-- No chunk that is cut off the text starts like a custom declaration. -/
def Customless (depth : Nat) (mode : Mode) (text : Text) : Prop :=
  ∀ chunk ∈ chunksFrom depth mode text, startsCustom chunk = false

theorem isCustomName_cons_cons (a b : Char) (rest : Text) :
    Declaration.isCustomName (a :: b :: rest) = (a == '-' && b == '-') := by
  by_cases first : a = '-' <;> by_cases second : b = '-' <;>
    simp [Declaration.isCustomName, Text.startsWith, Text.dropWord?, first, second]

theorem isCustomName_append {first : Text} {c : Char} (other : c ≠ '-') (second : Text) :
    Declaration.isCustomName (first ++ c :: second) = Declaration.isCustomName first := by
  rcases first with _ | ⟨a, _ | ⟨b, rest⟩⟩
  · simp [Declaration.isCustomName, Text.startsWith, Text.dropWord?, other]
  · simp [Declaration.isCustomName, Text.startsWith, Text.dropWord?, other]
  · simp [isCustomName_cons_cons]

/-- Ink that is no hyphen ends the start of a text. -/
theorem startsCustom_append {first : Text} {c : Char} (ink : Text.isBlank c = false)
    (other : c ≠ '-') (second : Text) :
    startsCustom (first ++ c :: second) = startsCustom first := by
  rw [startsCustom, trimLeft_append_ink first ink, isCustomName_append other]
  rfl

theorem startsCustom_blank_append {blanks : Text} (blank : Text.Blank blanks) (text : Text) :
    startsCustom (blanks ++ text) = startsCustom text := by
  rw [startsCustom, Text.trimLeft_blank_append blank]
  rfl

theorem startsCustom_of_blank {text : Text} (blank : Text.Blank text) :
    startsCustom text = false := by
  rw [startsCustom, Text.trimLeft_of_blank blank]
  rfl

theorem startsCustom_of_trimmed {text : Text} (trimmed : Text.Trimmed text) :
    startsCustom text = Declaration.isCustomName text := by
  rw [startsCustom, Text.trimLeft_of_starts trimmed.starts]

theorem isCustomName_trim (text : Text) :
    Declaration.isCustomName (Text.trim text) = startsCustom text := by
  obtain ⟨blanks, blank, parts⟩ := Text.exists_trimRight_append (Text.trimLeft text)
  rw [startsCustom, parts]
  cases blanks with
  | nil => rw [List.append_nil]; rfl
  | cons c rest =>
    have other : c ≠ '-' := by
      rintro rfl
      exact absurd (blank '-' (List.mem_cons_self ..)) (by decide)
    exact (isCustomName_append other rest).symm

/-- A chunk is read as a custom declaration when it starts like one. -/
theorem isCustom_parse (chunk : Text) :
    (Declaration.parse chunk).isCustom = startsCustom chunk := by
  rw [Declaration.isCustom]
  rcases Declaration.colon_cases chunk with free | ⟨name, rest, free, rfl⟩
  · rw [Declaration.parse_of_colonFree free]
    exact isCustomName_trim chunk
  · rw [(Declaration.parse_colon_cases free rest).1, isCustomName_trim]
    exact (startsCustom_append (by decide) (by decide) rest).symm

/-- A declaration is written like a custom one only if it is one, or a value without a property
that looks like one. -/
theorem startsCustom_write {chunk : Text} (regular : (Declaration.parse chunk).isCustom = false)
    (nameless : (Declaration.parse chunk).property = [] →
      Declaration.isCustomName (Declaration.parse chunk).value = false) :
    startsCustom (Declaration.parse chunk).write = false := by
  rw [startsCustom_of_trimmed (Declaration.trimmed_write chunk)]
  cases wellFormed : (Declaration.parse chunk).isMalformed with
  | true =>
    rcases Declaration.malformed_cases wellFormed with unnamed | unvalued
    · rw [Declaration.write_of_unnamed unnamed]
      exact nameless unnamed
    · rw [Declaration.write_of_unvalued unvalued]
      exact regular
  | false =>
    rw [Declaration.write_of_wellFormed wellFormed, isCustomName_append (by decide)]
    exact regular

theorem isCustom_of_customless {body : Text} (free : Customless 0 .code body)
    {declaration : Declaration} (member : declaration ∈ Declaration.parseAll body) :
    declaration.isCustom = false := by
  simp only [Declaration.parseAll, chunks, List.mem_map, List.mem_filter] at member
  obtain ⟨chunk, ⟨⟨part, cut, rfl⟩, _⟩, rfl⟩ := member
  rw [isCustom_parse, startsCustom_of_trimmed (Text.trimmed_trim part), isCustomName_trim]
  exact free part cut

section cuts

variable {depth : Nat} {mode : Mode} {first : Text} (uncut : solid depth mode first = true)
  (regular : startsCustom first = false)
include uncut regular

theorem customless_of_solid : Customless depth mode first := by
  obtain ⟨head, others, parts, grown⟩ := chunksFrom_append uncut []
  simp only [chunksFrom, List.cons.injEq] at parts
  rw [List.append_nil, ← parts.1, ← parts.2, List.append_nil] at grown
  rw [Customless, grown]
  simpa using regular

/-- A semicolon cuts or does not; either way no chunk starts in what it follows. -/
theorem customless_append {rest : Text}
    (behind : Customless (nestingAfter depth mode first) ((mode.after first).step ';') rest) :
    Customless depth mode (first ++ ';' :: rest) := by
  obtain ⟨head, others, parts, grown⟩ := chunksFrom_append uncut (';' :: rest)
  have semicolon : ∀ live, nesting (nestingAfter depth mode first) live ';'
      = nestingAfter depth mode first := by simp [nesting]
  rw [Customless, grown]
  simp only [List.forall_mem_cons]
  rw [chunksFrom] at parts
  split at parts
  next cuts =>
    obtain ⟨rfl, rfl⟩ := List.cons.inj parts
    rw [List.append_nil]
    refine ⟨regular, ?_⟩
    rw [Mode.isCode_iff.mp cuts.1, cuts.2.2] at behind
    rw [Mode.isCode_iff.mp cuts.1]
    exact behind
  next passes =>
    rw [semicolon] at parts
    obtain ⟨start, later, whole⟩ := List.exists_cons_of_ne_nil
      (chunksFrom_ne_nil (nestingAfter depth mode first) ((mode.after first).step ';') rest)
    rw [Customless, whole, List.forall_mem_cons] at behind
    rw [whole, growFirst] at parts
    obtain ⟨rfl, rfl⟩ := List.cons.inj parts
    exact ⟨(startsCustom_append (by decide) (by decide) start).trans regular, behind.2⟩

end cuts

theorem customless_blank {blanks : Text} (blank : Text.Blank blanks) (depth : Nat) (mode : Mode) :
    Customless depth mode blanks :=
  customless_of_solid (solid_of_free (fun member => absurd (blank _ member) (by decide)) depth mode)
    (startsCustom_of_blank blank)

/-! ### The kept body -/

theorem sublist_dropLast {α : Type} {first second : List α} (inside : first.Sublist second) :
    first.dropLast.Sublist second.dropLast := by
  have backwards := (List.reverse_sublist.mpr inside).tail
  rw [List.tail_reverse, List.tail_reverse] at backwards
  exact List.reverse_sublist.mp backwards

/-- Where declarations of a block are written one behind the other, the scan stands behind each but
the last where it started. -/
theorem standing_write_of_mem_dropLast {body : Text} {declarations : List Declaration}
    (listed : declarations.Sublist (Declaration.parseAll body)) {declaration : Declaration}
    (member : declaration ∈ declarations.dropLast) :
    standing 0 .code declaration.write = (0, .code) := by
  have cut : (Declaration.parseAll body).Sublist
      ((chunksFrom 0 .code body).map fun part => Declaration.parse (Text.trim part)) := by
    have chunks := (List.filter_sublist (p := fun chunk => !chunk.isEmpty)
      (l := (chunksFrom 0 .code body).map Text.trim)).map Declaration.parse
    rwa [List.map_map] at chunks
  have inside := (sublist_dropLast (listed.trans cut)).subset member
  rw [← List.map_dropLast] at inside
  obtain ⟨part, last, rfl⟩ := List.mem_map.mp inside
  rw [Declaration.standing_reread, standing_trim 0 Mode.sound_code rfl]
  exact (whole_of_mem_dropLast last).standing

/-- Parts joined like a kept body are cut where a part starts, if at all. -/
theorem customless_join {parts : List Text} (some : parts ≠ [])
    (uncut : ∀ part ∈ parts, solid 0 .code part = true)
    (regular : ∀ part ∈ parts, startsCustom part = false)
    (shut : ∀ part ∈ parts.dropLast, standing 0 .code part = (0, .code)) :
    Customless 0 .code ([' '] ++ (Text.join [';', ' '] parts ++ [';', ' '])) := by
  have blank : Text.Blank [' '] := by decide
  induction parts with
  | nil => exact absurd rfl some
  | cons part others ih =>
    simp only [List.forall_mem_cons] at uncut regular
    have solid : solid 0 .code ([' '] ++ part) = true := by
      rw [solid_blank_append Mode.sound_code rfl blank]
      exact uncut.1
    have starts : startsCustom ([' '] ++ part) = false := by
      rw [startsCustom_blank_append blank]
      exact regular.1
    cases others with
    | nil =>
      have last := customless_append solid starts (customless_blank blank _ _)
      simpa [Text.join] using last
    | cons other others =>
      rw [List.dropLast_cons_cons, List.forall_mem_cons] at shut
      have behind := ih (by simp) uncut.2 regular.2 shut.2
      -- The part leaves nothing open, so its semicolon is met at depth zero and settles in code.
      have level : nestingAfter 0 .code ([' '] ++ part) = 0 := congrArg Prod.fst shut.1
      have settles : (Mode.code.after ([' '] ++ part)).step ';' = .code := by
        rw [(Mode.sound_code.after _).step_ordinary rfl]
        exact congrArg Prod.snd shut.1
      have whole := customless_append solid starts (by rwa [level, settles])
      simpa [Text.join_cons_cons] using whole

/-- A kept body shows no custom declaration, if none of its values stands without a property and
looks like one. -/
theorem customless_keptBody {body : Text} (some : kept body ≠ [])
    (nameless : ∀ declaration ∈ Declaration.parseAll body, declaration.property = [] →
      Declaration.isCustomName declaration.value = false) :
    Customless 0 .code (keptBody body) := by
  apply customless_join
  · simpa using some
  · simp only [List.forall_mem_map]
    intro declaration member
    obtain ⟨chunk, _, uncut, rfl⟩ := exists_of_mem_kept member
    exact Declaration.solid_write uncut
  · simp only [List.forall_mem_map]
    intro declaration member
    obtain ⟨chunk, _, _, rfl⟩ := exists_of_mem_kept member
    rw [kept, List.mem_filter] at member
    exact startsCustom_write (by simpa using member.2) (nameless _ member.1)
  · rw [← List.map_dropLast, List.forall_mem_map]
    exact fun declaration => standing_write_of_mem_dropLast List.filter_sublist

end ThemeCss.Sheet
