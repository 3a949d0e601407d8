import ThemeCss.Proofs.Scan.Chunks
import ThemeCss.Proofs.Scan.Comment
import ThemeCss.Proofs.Text.Keyword
import ThemeCss.Proofs.Text.Search
import ThemeCss.Sheet.Declaration

/-!
# Declarations written and read again

A declaration that was read with a property and a value is read back from its written form. Writing
only moves blanks around the colon and the importance mark, so it does not bring a semicolon into
the open: the written form of a chunk is one chunk again as long as nothing is left open in it.
-/
namespace ThemeCss.Sheet.Declaration

open Scan

/-! ### Importance -/

def mark : Text := " !important".toList

theorem dropImportant?_mark (plain : Text) :
    dropImportant? (plain ++ mark) = some (Text.trim plain) := by
  have blank : Text.Blank [' '] := by decide
  have reversed : (plain ++ mark).reverse
      = "important".toList.reverse ++ ('!' :: ' ' :: plain.reverse) := by
    rw [List.reverse_append]
    rfl
  -- The search runs backwards, so the mark at the end is met first.
  have found : beforeLast? "important".toList (plain ++ mark).reverse
      = some ('!' :: ' ' :: plain.reverse) := by
    rw [reversed]
    rfl
  have ink : ('!' :: ' ' :: plain.reverse).dropWhile Text.isBlank = '!' :: ' ' :: plain.reverse :=
    Text.trimLeft_cons (by decide) _
  rw [dropImportant?, found]
  simp only [ink, List.reverse_cons, List.reverse_reverse, Text.trim_append_blank blank]

/-- What importance is taken off of starts the value. -/
theorem exists_of_dropImportant? {value plain : Text} (found : dropImportant? value = some plain) :
    ∃ before, before <+: value ∧ plain = Text.trim before := by
  simp only [dropImportant?] at found
  split at found
  · simp at found
  next reversed last =>
    split at found
    next rest start =>
      simp only [Option.some.injEq] at found
      refine ⟨rest.reverse, ?_, found.symm⟩
      -- Reversed, what is left is a suffix; back again it is the start of the value.
      have suffix : rest <:+ value.reverse := by
        have inner : '!' :: rest <:+ reversed := start ▸ List.dropWhile_suffix _
        exact ((List.suffix_cons _ _).trans inner).trans (Text.dropKeyword?_suffix last)
      have reflected := List.reverse_prefix.mpr suffix
      rwa [List.reverse_reverse] at reflected
    · simp at found

/-- A mark that is taken off ends the value, and it is taken off of any value that it ends. -/
theorem exists_mark_of_dropImportant? {value plain : Text}
    (found : dropImportant? value = some plain) :
    ∃ blanks word, Text.Blank blanks ∧
      Text.isKeyword "important".toList.reverse word.reverse = true ∧
      '!' :: (blanks ++ word) <:+ value ∧
      ∀ before, dropImportant? (before ++ '!' :: (blanks ++ word)) = some (Text.trim before) := by
  simp only [dropImportant?, beforeLast?] at found
  split at found
  · simp at found
  next reversed last =>
    split at found
    next rest start =>
      obtain ⟨met, parts, keyword⟩ := Text.exists_isKeyword last
      have blank : Text.Blank (reversed.takeWhile Text.isBlank) := Text.blank_takeWhile reversed
      have behind := Text.takeWhile_append_trimLeft reversed
      rw [Text.trimLeft, start] at behind
      refine ⟨(reversed.takeWhile Text.isBlank).reverse, met.reverse, ?_, ?_, ?_, ?_⟩
      · intro c member
        exact blank c (List.mem_reverse.mp member)
      · rwa [List.reverse_reverse]
      · refine ⟨rest.reverse, ?_⟩
        have whole := congrArg List.reverse parts
        rw [List.reverse_reverse, ← behind] at whole
        simp [whole]
      · intro before
        -- Read backwards, the word comes first, then the blanks and then the sign.
        have backwards : (before ++ '!' :: ((reversed.takeWhile Text.isBlank).reverse
            ++ met.reverse)).reverse
            = met ++ (reversed.takeWhile Text.isBlank ++ '!' :: before.reverse) := by
          simp
        have sign : (reversed.takeWhile Text.isBlank ++ '!' :: before.reverse).dropWhile
            Text.isBlank = '!' :: before.reverse := by
          have trimmed := Text.trimLeft_blank_append blank ('!' :: before.reverse)
          rw [Text.trimLeft_cons (by decide)] at trimmed
          exact trimmed
        rw [dropImportant?, beforeLast?, backwards, Text.dropKeyword?_of_isKeyword keyword]
        simp only [sign, List.reverse_reverse]
    · simp at found

theorem dropImportant?_of_free {value : Text} (free : '!' ∉ value) :
    dropImportant? value = none := by
  simp only [dropImportant?]
  split
  · rfl
  next reversed last =>
    split
    next rest start =>
      have inner : '!' :: rest <:+ reversed := start ▸ List.dropWhile_suffix _
      have behind := inner.trans (Text.dropKeyword?_suffix last)
      exact absurd (List.mem_reverse.mp (behind.subset (List.mem_cons_self ..))) free
    · rfl

/-! ### Reading a chunk -/

theorem parse_of_colonFree {chunk : Text} (free : ':' ∉ chunk) :
    parse chunk = { property := Text.trim chunk } := by
  rw [parse, Text.splitAtWord?_singleton_eq_none free]

theorem parse_of_colon {name : Text} (free : ':' ∉ name) (rest : Text) :
    parse (name ++ ':' :: rest)
      = match dropImportant? (Text.trim rest) with
        | some plain => { property := Text.trim name, value := plain, important := true }
        | none => { property := Text.trim name, value := Text.trim rest } := by
  cases found : dropImportant? (Text.trim rest) <;>
    simp [parse, Text.splitAtWord?_singleton free, found]

/-- A chunk has no colon or is split at its first one. -/
theorem colon_cases (chunk : Text) :
    ':' ∉ chunk ∨ ∃ name rest, ':' ∉ name ∧ chunk = name ++ ':' :: rest := by
  by_cases held : ':' ∈ chunk
  · obtain ⟨name, rest, parts, free⟩ := List.eq_append_cons_of_mem held
    exact .inr ⟨name, rest, free, parts⟩
  · exact .inl held

/-- How a chunk with a colon is read: the property before it, and the value behind it perhaps
without its mark. -/
theorem parse_colon_cases {name : Text} (free : ':' ∉ name) (rest : Text) :
    (parse (name ++ ':' :: rest)).property = Text.trim name ∧
    ∃ before, before <+: Text.trim rest ∧
      (parse (name ++ ':' :: rest)).value = Text.trim before ∧
      ((parse (name ++ ':' :: rest)).important = true ∨
        dropImportant? (parse (name ++ ':' :: rest)).value = none) := by
  rw [parse_of_colon free]
  cases found : dropImportant? (Text.trim rest) with
  | none =>
    exact ⟨rfl, Text.trim rest, List.prefix_refl _, (Text.trim_trim rest).symm, .inr found⟩
  | some plain =>
    obtain ⟨before, starts, same⟩ := exists_of_dropImportant? found
    exact ⟨rfl, before, starts, same, .inl rfl⟩

/-- What a chunk reads as when it has a property and a value. -/
structure Readable (declaration : Declaration) : Prop where
  named : declaration.property ≠ []
  property : Text.Trimmed declaration.property
  colonFree : ':' ∉ declaration.property
  valued : declaration.value ≠ []
  value : Text.Trimmed declaration.value
  mark : declaration.important = true ∨ dropImportant? declaration.value = none

theorem isMalformed_eq_false {declaration : Declaration} :
    declaration.isMalformed = false ↔ declaration.property ≠ [] ∧ declaration.value ≠ [] := by
  simp [isMalformed]

theorem Readable.wellFormed {declaration : Declaration} (readable : Readable declaration) :
    declaration.isMalformed = false :=
  isMalformed_eq_false.mpr ⟨readable.named, readable.valued⟩

theorem readable_parse {chunk : Text} (wellFormed : (parse chunk).isMalformed = false) :
    Readable (parse chunk) := by
  obtain ⟨named, valued⟩ := isMalformed_eq_false.mp wellFormed
  rcases colon_cases chunk with free | ⟨name, rest, free, rfl⟩
  -- Without a colon there is no value, so this chunk was malformed.
  · exact absurd (by rw [parse_of_colonFree free]) valued
  · obtain ⟨property, before, starts, value, marked⟩ := parse_colon_cases free rest
    refine ⟨named, ?_, ?_, valued, ?_, marked⟩
    · rw [property]
      exact Text.trimmed_trim name
    · rw [property]
      exact fun member => free (Text.mem_of_mem_trim member)
    · rw [value]
      exact Text.trimmed_trim before

theorem write_of_wellFormed {declaration : Declaration}
    (wellFormed : declaration.isMalformed = false) :
    declaration.write = declaration.property ++ ':' :: ' ' :: (declaration.value ++
      if declaration.important then mark else []) := by
  obtain ⟨named, valued⟩ := isMalformed_eq_false.mp wellFormed
  have property : declaration.property.isEmpty = false := by simpa using named
  have value : declaration.value.isEmpty = false := by simpa using valued
  simp only [write, property, value, Bool.false_eq_true, if_false, List.append_assoc,
    List.cons_append, List.nil_append]
  rfl

/-- What the written parts have and appending keeps, the written form has. -/
theorem Readable.write_induction {declaration : Declaration} (readable : Readable declaration)
    {P : Text → Prop} (nil : P [])
    (append : ∀ first second, P first → P second → P (first ++ second)) (colon : P [':', ' '])
    (marked : P Declaration.mark) (property : P declaration.property)
    (value : P declaration.value) :
    P declaration.write := by
  have last : P (if declaration.important then Declaration.mark else []) := by
    split
    · exact marked
    · exact nil
  have whole := append _ _ (append _ _ property colon) (append _ _ value last)
  rw [List.append_assoc] at whole
  rw [write_of_wellFormed readable.wellFormed]
  exact whole

/-- A name that scans pass over and a value that leaves nothing open are written as one whole. -/
theorem Readable.whole_write {declaration : Declaration} (readable : Readable declaration)
    (name : ∀ c ∈ declaration.property, isInert c = true) (value : Whole declaration.value) :
    Whole declaration.write :=
  readable.write_induction whole_nil (fun _ _ => Whole.append) (by decide) (by decide)
    (whole_of_inert name) value

/-- A readable declaration is read back. -/
theorem parse_write {declaration : Declaration} (readable : Readable declaration) :
    parse declaration.write = declaration := by
  obtain ⟨property, value, important⟩ := declaration
  have trimmedValue := readable.value
  have marked := readable.mark
  have blank : Text.Blank [' '] := by decide
  rw [write_of_wellFormed readable.wellFormed, parse_of_colon readable.colonFree,
    Text.trim_of_trimmed readable.property, ← List.singleton_append,
    Text.trim_blank_append blank]
  dsimp only at trimmedValue marked ⊢
  -- Without a mark the value must not look like one; with a mark it is taken off again.
  cases important with
  | false =>
    have unmarked : dropImportant? value = none := by simpa using marked
    simp only [Bool.false_eq_true, if_false, List.append_nil, Text.trim_of_trimmed trimmedValue,
      unmarked]
  | true =>
    have ink : mark ≠ [] := by decide
    have trimmed : Text.trim (value ++ mark) = value ++ mark := by
      have last : Text.Trimmed "!important".toList := by decide
      have parts : mark = [' '] ++ "!important".toList := rfl
      rw [parts, ← List.append_assoc]
      exact Text.trim_of_trimmed
        (trimmedValue.between readable.valued last (by decide) [' '])
    simp only [if_true, trimmed, dropImportant?_mark, Text.trim_of_trimmed trimmedValue]

/-! ### What a chunk's written form holds -/

theorem trimmed_property (chunk : Text) : Text.Trimmed (parse chunk).property := by
  rcases colon_cases chunk with free | ⟨name, rest, free, rfl⟩
  · rw [parse_of_colonFree free]
    exact Text.trimmed_trim chunk
  · rw [(parse_colon_cases free rest).1]
    exact Text.trimmed_trim name

theorem trimmed_value (chunk : Text) : Text.Trimmed (parse chunk).value := by
  rcases colon_cases chunk with free | ⟨name, rest, free, rfl⟩
  · rw [parse_of_colonFree free]
    exact Text.trimmed_trim []
  · obtain ⟨_, before, _, value, _⟩ := parse_colon_cases free rest
    rw [value]
    exact Text.trimmed_trim before

theorem colon_not_mem_property (chunk : Text) : ':' ∉ (parse chunk).property := by
  rcases colon_cases chunk with free | ⟨name, rest, free, rfl⟩
  · rw [parse_of_colonFree free]
    exact fun member => free (Text.mem_of_mem_trim member)
  · rw [(parse_colon_cases free rest).1]
    exact fun member => free (Text.mem_of_mem_trim member)

theorem property_inside (chunk : Text) : (parse chunk).property <:+: chunk := by
  rcases colon_cases chunk with free | ⟨name, rest, free, rfl⟩
  · rw [parse_of_colonFree free]
    exact Text.trim_inside chunk
  · rw [(parse_colon_cases free rest).1]
    exact (Text.trim_inside name).trans (List.prefix_append _ _).isInfix

theorem value_inside (chunk : Text) : (parse chunk).value <:+: chunk := by
  rcases colon_cases chunk with free | ⟨name, rest, free, rfl⟩
  · rw [parse_of_colonFree free]
    exact List.nil_infix
  · obtain ⟨_, before, starts, value, _⟩ := parse_colon_cases free rest
    have behind : rest <:+ name ++ ':' :: rest :=
      (List.suffix_cons _ _).trans (List.suffix_append _ _)
    rw [value]
    exact (Text.trim_inside before).trans
      (starts.isInfix.trans ((Text.trim_inside rest).trans behind.isInfix))

theorem write_of_unnamed {declaration : Declaration} (unnamed : declaration.property = []) :
    declaration.write = declaration.value := by
  simp [write, unnamed]

theorem write_of_unvalued {declaration : Declaration} (unvalued : declaration.value = []) :
    declaration.write = declaration.property := by
  by_cases unnamed : declaration.property = []
  · rw [write_of_unnamed unnamed, unvalued, unnamed]
  · simp [write, unnamed, unvalued]

/-- A malformed declaration is written as the part it has. -/
theorem malformed_cases {declaration : Declaration} (malformed : declaration.isMalformed = true) :
    declaration.property = [] ∨ declaration.value = [] := by
  simpa [isMalformed] using malformed

theorem trimmed_write (chunk : Text) : Text.Trimmed (parse chunk).write := by
  have property := trimmed_property chunk
  have value := trimmed_value chunk
  -- A malformed chunk is one trimmed part; a well-formed one has ink at both ends.
  cases wellFormed : (parse chunk).isMalformed with
  | true =>
    rcases malformed_cases wellFormed with unnamed | unvalued
    · rwa [write_of_unnamed unnamed]
    · rwa [write_of_unvalued unvalued]
  | false =>
    obtain ⟨named, valued⟩ := isMalformed_eq_false.mp wellFormed
    have last : Text.Trimmed "!important".toList := by decide
    rw [write_of_wellFormed wellFormed]
    split
    · have whole := property.between named last (by decide)
        (':' :: ' ' :: (parse chunk).value ++ [' '])
      rw [List.append_assoc, List.append_assoc] at whole
      exact whole
    · have whole := property.between named value valued [':', ' ']
      rw [List.append_assoc] at whole
      rwa [List.append_nil]

section malformed

variable {chunk : Text} (malformed : (parse chunk).isMalformed = true)
  (single : (parse chunk).property ≠ [] ∨ ':' ∉ (parse chunk).value)
include malformed single

/-- What is written is the value alone or the property alone, and neither holds a colon. -/
theorem colon_not_mem_write : ':' ∉ (parse chunk).write := by
  by_cases unnamed : (parse chunk).property = []
  · rw [write_of_unnamed unnamed]
    exact single.resolve_left fun named => named unnamed
  · rw [write_of_unvalued ((malformed_cases malformed).resolve_left unnamed)]
    exact colon_not_mem_property chunk

/-- A malformed declaration stays so, unless it is a value that could pass for a declaration. -/
theorem isMalformed_parse_write : (parse (parse chunk).write).isMalformed = true := by
  rw [parse_of_colonFree (colon_not_mem_write malformed single)]
  simp [isMalformed]

end malformed

/-- Unless it is a value that could pass for a declaration, what was read is written the same when
its written form is read. -/
theorem write_parse_write {chunk : Text}
    (single : (parse chunk).property ≠ [] ∨ ':' ∉ (parse chunk).value) :
    (parse (parse chunk).write).write = (parse chunk).write := by
  cases wellFormed : (parse chunk).isMalformed with
  | false => rw [parse_write (readable_parse wellFormed)]
  | true =>
    -- The one part that it has may come back as the other one.
    rw [parse_of_colonFree (colon_not_mem_write wellFormed single), write_of_unvalued rfl,
      Text.trim_of_trimmed (trimmed_write chunk)]

theorem mem_write {declaration : Declaration} {c : Char} (member : c ∈ declaration.write) :
    c ∈ declaration.property ∨ c ∈ declaration.value ∨ c ∈ ':' :: mark := by
  cases wellFormed : declaration.isMalformed with
  | true =>
    rcases malformed_cases wellFormed with unnamed | unvalued
    · rw [write_of_unnamed unnamed] at member
      exact .inr (.inl member)
    · rw [write_of_unvalued unvalued] at member
      exact .inl member
  | false =>
    rw [write_of_wellFormed wellFormed] at member
    -- The written parts in order: property, colon, blank, value, mark.
    rcases List.mem_append.mp member with member | member
    · exact .inl member
    · rcases List.mem_cons.mp member with rfl | member
      · exact .inr (.inr (List.mem_cons_self ..))
      · rcases List.mem_cons.mp member with rfl | member
        · exact .inr (.inr (by decide))
        · rcases List.mem_append.mp member with member | member
          · exact .inr (.inl member)
          · split at member
            · exact .inr (.inr (List.mem_cons_of_mem _ member))
            · simp at member

theorem holds_opener_write {declaration : Declaration}
    (property : Text.holds Comment.opener declaration.property = false)
    (value : Text.holds Comment.opener declaration.value = false) :
    Text.holds Comment.opener declaration.write = false := by
  cases wellFormed : declaration.isMalformed with
  | true =>
    rcases malformed_cases wellFormed with unnamed | unvalued
    · rwa [write_of_unnamed unnamed]
    · rwa [write_of_unvalued unvalued]
  | false =>
    -- The colon and the two blanks keep the parts apart, so no comment opens across them.
    have blank := Comment.holds_opener_append (c := ' ') (by decide) (by decide)
    have marked : Text.holds Comment.opener (declaration.value ++ mark) = false := by
      have last : Text.holds Comment.opener "!important".toList = false := by decide
      have parts : mark = ' ' :: "!important".toList := rfl
      rw [parts, blank, value, last]
      rfl
    rw [write_of_wellFormed wellFormed, Comment.holds_opener_append (by decide) (by decide),
      property, ← List.nil_append (' ' :: _), blank]
    split
    · rw [marked]
      rfl
    · rw [List.append_nil, value]
      rfl

/-! ### Writing does not cut -/

/-- In a solid chunk the name is solid, and so is what follows the colon for a scan that read the
name without the blanks around it. -/
theorem solid_split {name rest : Text} (uncut : solid 0 .code (name ++ ':' :: rest) = true) :
    solid 0 .code (Text.trim name) = true ∧
    solid (nestingAfter 0 .code (Text.trim name)) (Mode.code.after (Text.trim name)).settled rest
      = true := by
  obtain ⟨before, after, left, right, parts⟩ := Text.exists_trim name
  have sound := Mode.sound_code.after (Text.trim name)
  have inert : ∀ c ∈ after ++ [':'], isInert c = true := by
    intro c member
    rcases List.mem_append.mp member with member | member
    · exact isInert_of_blank (right c member)
    · rw [List.mem_singleton.mp member]
      rfl
  -- The blanks behind the name and the colon are inert: they only take a pending backslash.
  have whole : name ++ ':' :: rest = before ++ (Text.trim name ++ (after ++ [':'] ++ rest)) := by
    conv => lhs; rw [parts]
    simp
  rw [whole, solid_blank_append Mode.sound_code rfl left, solid_append, Bool.and_eq_true,
    solid_inert_append sound inert (by simp)] at uncut
  exact uncut

/-- The value of a solid chunk is solid for a scan that read the name without the blanks around
it. -/
theorem solid_value {name rest : Text} (free : ':' ∉ name)
    (uncut : solid 0 .code (name ++ ':' :: rest) = true) :
    solid (nestingAfter 0 .code (Text.trim name)) (Mode.code.after (Text.trim name)).settled
      (parse (name ++ ':' :: rest)).value = true := by
  obtain ⟨_, before, ⟨behind, parts⟩, value, _⟩ := parse_colon_cases free rest
  have sound := Mode.sound_code.after (Text.trim name)
  have trimmed := solid_trim sound.settled rfl (solid_split uncut).2
  rw [← parts, solid_append, Bool.and_eq_true] at trimmed
  rw [value]
  exact solid_trim sound.settled rfl trimmed.1

/-- The written form of a solid chunk is solid: its scan meets other blanks than that of the chunk,
but comes to the value in the same state. -/
theorem solid_write {chunk : Text} (uncut : solid 0 .code chunk = true) :
    solid 0 .code (parse chunk).write = true := by
  rcases colon_cases chunk with free | ⟨name, rest, free, rfl⟩
  -- One part only, which is the trimmed chunk.
  · rw [parse_of_colonFree free, write_of_unvalued rfl]
    exact solid_trim Mode.sound_code rfl uncut
  · have property := (parse_colon_cases free rest).1
    have nameSolid := (solid_split uncut).1
    have sound := Mode.sound_code.after (Text.trim name)
    -- The value is solid in the state behind the name, where it starts in the written form too.
    have valueSolid := solid_value free uncut
    cases wellFormed : (parse (name ++ ':' :: rest)).isMalformed with
    | true =>
      rcases malformed_cases wellFormed with unnamed | unvalued
      · rw [write_of_unnamed unnamed]
        rwa [← property, unnamed] at valueSolid
      · rwa [write_of_unvalued unvalued, property]
    | false =>
      have inert : ∀ c ∈ [':', ' '], isInert c = true := List.all_eq_true.mp rfl
      have colon := fun text =>
        @solid_inert_append (nestingAfter 0 .code (Text.trim name)) _ sound _ inert (by simp) text
      rw [write_of_wellFormed wellFormed, property, solid_append, nameSolid, Bool.true_and]
      refine (colon ((parse (name ++ ':' :: rest)).value ++ _)).trans ?_
      rw [solid_append, valueSolid, Bool.true_and]
      exact solid_of_free (by split <;> decide) _ _

/-! ### Blocks -/

theorem parseAll_blank_append {blanks : Text} (blank : Text.Blank blanks) (body : Text) :
    parseAll (blanks ++ body) = parseAll body := by
  rw [parseAll, parseAll, chunks_blank_append blank]

theorem parseAll_trim (body : Text) : parseAll (Text.trim body) = parseAll body := by
  rw [parseAll, parseAll, chunks_trim]

theorem parseAll_trimLeft (body : Text) : parseAll (Text.trimLeft body) = parseAll body := by
  conv => rhs; rw [← Text.takeWhile_append_trimLeft body,
    parseAll_blank_append (Text.blank_takeWhile body)]

theorem parseAll_of_blank {body : Text} (blank : Text.Blank body) : parseAll body = [] := by
  rw [parseAll, chunks_of_blank blank]
  rfl

/-- A declaration of a block is what a solid part of it reads as. -/
theorem exists_of_mem_parseAll {body : Text} {declaration : Declaration}
    (member : declaration ∈ parseAll body) :
    ∃ chunk, chunk <:+: body ∧ solid 0 .code chunk = true ∧ declaration = parse chunk := by
  simp only [parseAll, List.mem_map] at member
  obtain ⟨chunk, listed, rfl⟩ := member
  obtain ⟨part, inside, uncut, rfl, _⟩ := exists_of_mem_chunks listed
  exact ⟨Text.trim part, (Text.trim_inside part).trans inside,
    solid_trim Mode.sound_code rfl uncut, rfl⟩

/-- The written form leaves nothing open and cannot pass for another declaration. -/
structure Contained (declaration : Declaration) : Prop where
  single : declaration.property ≠ [] ∨ ':' ∉ declaration.value
  level : nestingAfter 0 .code declaration.write = 0
  closed : Closed declaration.write

instance (declaration : Declaration) : Decidable (Contained declaration) :=
  decidable_of_iff ((declaration.property ≠ [] ∨ ':' ∉ declaration.value) ∧
      nestingAfter 0 .code declaration.write = 0 ∧ Closed declaration.write)
    ⟨fun ⟨single, level, closed⟩ => ⟨single, level, closed⟩,
      fun ⟨single, level, closed⟩ => ⟨single, level, closed⟩⟩

/-- What is read where a declaration was written. -/
def reread (declaration : Declaration) : List Declaration :=
  (ownChunk declaration.write).map parse

/-- With a property and a value, and not custom. -/
def isRegular (declaration : Declaration) : Bool :=
  !declaration.isMalformed && !declaration.isCustom

theorem whole_write {chunk : Text} (uncut : solid 0 .code chunk = true)
    (contained : Contained (parse chunk)) : Whole (parse chunk).write :=
  ⟨solid_write uncut, contained.level, contained.closed⟩

theorem write_ne_nil {declaration : Declaration} (wellFormed : declaration.isMalformed = false) :
    declaration.write ≠ [] := by
  rw [write_of_wellFormed wellFormed]
  simp

theorem trimmed_write_of_readable {declaration : Declaration} (readable : Readable declaration) :
    Text.Trimmed declaration.write := by
  have trimmed := trimmed_write declaration.write
  rwa [parse_write readable] at trimmed

theorem reread_of_readable {declaration : Declaration} (readable : Readable declaration) :
    reread declaration = [declaration] := by
  have ink := write_ne_nil readable.wellFormed
  rw [reread, ownChunk, Text.trim_of_trimmed (trimmed_write_of_readable readable)]
  simp [ink, parse_write readable]

theorem flatMap_reread_of_readable {declarations : List Declaration}
    (readable : ∀ declaration ∈ declarations, Readable declaration) :
    declarations.flatMap reread = declarations := by
  induction declarations with
  | nil => rfl
  | cons declaration rest ih =>
    simp only [List.forall_mem_cons] at readable
    rw [List.flatMap_cons, ih readable.2, reread_of_readable readable.1]
    rfl

/-- Writing and reading again keeps the regular declarations. -/
theorem filter_reread {chunk : Text}
    (single : (parse chunk).property ≠ [] ∨ ':' ∉ (parse chunk).value) :
    (reread (parse chunk)).filter isRegular = [parse chunk].filter isRegular := by
  cases wellFormed : (parse chunk).isMalformed with
  | false => rw [reread_of_readable (readable_parse wellFormed)]
  | true =>
    have still := isMalformed_parse_write wellFormed single
    rw [reread, ownChunk, Text.trim_of_trimmed (trimmed_write chunk)]
    -- Malformed before and after, so neither side has a regular declaration.
    by_cases ink : (parse chunk).write = []
    · simp [ink, isRegular, wellFormed]
    · simp [ink, isRegular, wellFormed, still]

/-- Whole declarations joined in a block are read one by one. -/
theorem parseAll_join {blanks : Text} (blank : Text.Blank blanks) {declarations : List Declaration}
    (whole : ∀ declaration ∈ declarations, Whole declaration.write) :
    parseAll (Text.join (';' :: blanks) (declarations.map write))
      = declarations.flatMap reread := by
  have parts : ∀ part ∈ declarations.map write, Whole part := by
    simpa using whole
  rw [parseAll, chunks_join blank parts, List.flatMap_map, List.map_flatMap]
  rfl

/-- A block is read back as the declarations that were written into it. -/
theorem parseAll_writeAll {declarations : List Declaration}
    (readable : ∀ declaration ∈ declarations, Readable declaration)
    (whole : ∀ declaration ∈ declarations, Whole declaration.write) :
    parseAll (writeAll declarations) = declarations := by
  rw [writeAll, parseAll_join Text.blank_nil whole, flatMap_reread_of_readable readable]

/-- The same with a last semicolon. -/
theorem parseAll_join_append {blanks : Text} (blank : Text.Blank blanks)
    {declarations : List Declaration} (some : declarations ≠ [])
    (whole : ∀ declaration ∈ declarations, Whole declaration.write) :
    parseAll (Text.join (';' :: blanks) (declarations.map write) ++ ';' :: blanks)
      = declarations.flatMap reread := by
  -- A last semicolon leaves an empty chunk behind it, which is dropped.
  have parts : ∀ part ∈ declarations.map write ++ [[]], Whole part := by
    simp only [List.forall_mem_append, List.forall_mem_map, List.forall_mem_singleton]
    exact ⟨whole, whole_nil⟩
  rw [← Text.join_concat (by simpa using some), parseAll, chunks_join blank parts,
    List.flatMap_append, List.flatMap_map, List.map_append, List.map_flatMap]
  simp only [List.flatMap_cons, List.flatMap_nil, ownChunk_nil, List.map_nil, List.append_nil]
  rfl

end ThemeCss.Sheet.Declaration
