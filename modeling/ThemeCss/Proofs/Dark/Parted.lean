import ThemeCss.Proofs.Dark.Sealed
import ThemeCss.Proofs.Dark.Simultaneous
import ThemeCss.Proofs.Scan.Balance

/-!
# Sealed parts of converted values

A value falls into sealed and plain parts, and a search for sealed parts finds the same sealed ones
after the plain ones are converted. A sealed part that something follows is closed, so what follows
it does not matter. In a plain part nothing opens: four characters open a call of `var` or `url`,
and no literal stands among them, for a word runs on to a parenthesis there and a literal would have
to start inside it.
-/
namespace ThemeCss.Dark

open Colour Scan Theme

/-! ### Where sealed parts start and end -/

theorem stringSize_le (quote : Char) (text : Text) : stringSize quote text ≤ text.length := by
  fun_induction stringSize quote text <;> simp_all

theorem stringSize_pos (quote : Char) {text : Text} (ink : text ≠ []) :
    0 < stringSize quote text := by
  fun_cases stringSize quote text <;> simp_all

/-- A sealed part covers at least one character and no more than there are. -/
theorem sealedMatcher_size {before : Option Char} {c : Char} {rest : Text} {size : Nat}
    (found : sealedMatcher before (c :: rest) = some ((), size)) :
    1 ≤ size ∧ size ≤ rest.length + 1 := by
  simp only [sealedMatcher] at found
  split at found
  next =>
    have bound := stringSize_le c rest
    simp only [Option.some.injEq, Prod.mk.injEq, true_and] at found
    omega
  next =>
    split at found
    next =>
      split at found
      next inside after closes =>
        have parts := Bracket.split?_length closes
        simp only [Option.some.injEq, Prod.mk.injEq, true_and] at found
        simp only [List.length_drop] at parts
        omega
      next =>
        simp only [Option.some.injEq, Prod.mk.injEq, true_and] at found
        omega
    next => cases found

theorem sealedMatcher_eq_none_iff {before : Option Char} {c : Char} {rest : Text} :
    sealedMatcher before (c :: rest) = none ↔
      Mode.isQuote c = false ∧ (startsSealedCall (c :: rest) = true → endsName before = true) := by
  simp only [sealedMatcher]
  split
  next quote => simp [quote]
  next quote =>
    split
    next starts =>
      split <;> simp [starts]
    next starts =>
      have ends : startsSealedCall (c :: rest) = true → endsName before = true := by
        simpa using starts
      simpa [quote] using ends

theorem endsName_of_isWord {before : Option Char} (word : Text.isWord? before = true) :
    endsName before = true := by
  cases before with
  | none => cases word
  | some c => simp [endsName, Text.isName, show Text.isWord c = true from word]

theorem sealedMatcher_congr {before before' : Option Char}
    (names : endsName before' = endsName before) (text : Text) :
    sealedMatcher before' text = sealedMatcher before text := by
  cases text with
  | nil => rfl
  | cons c rest => simp only [sealedMatcher, names]

/-! ### What follows a sealed part -/

/-- A string that something follows ends in its quote, and it does whatever follows it. -/
theorem closed_of_stringSize {quote : Char} {inner after : Text} (ink : after ≠ [])
    (closed : stringSize quote (inner ++ after) = inner.length) :
    inner.getLast? = some quote ∧
      ∀ after', stringSize quote (inner ++ after') = inner.length := by
  have unescaped {c : Char} {rest : Text} (none : c = '\\' → rest = [] → False)
      (some : ∀ d tail, c = '\\' → rest = d :: tail → False) : c ≠ '\\' := by
    intro same
    cases rest with
    | nil => exact none same rfl
    | cons d tail => exact some d tail same rfl
  fun_induction stringSize quote inner with
  | case1 =>
    have room := stringSize_pos quote ink
    simp only [List.nil_append, List.length_nil] at closed
    omega
  | case2 =>
    obtain ⟨d, tail, rfl⟩ := List.exists_cons_of_ne_nil ink
    simp [stringSize] at closed
  | case3 d rest ih =>
    simp only [List.cons_append, stringSize, List.length_cons, Nat.add_right_cancel_iff] at closed ⊢
    obtain ⟨last, whatever⟩ := ih closed
    exact ⟨by rw [List.getLast?_cons_cons, List.getLast?_cons, last]; rfl, whatever⟩
  | case4 rest none some =>
    have plain := unescaped none some
    rw [List.cons_append, stringSize_cons plain, if_pos rfl, List.length_cons] at closed
    obtain rfl : rest = [] := List.length_eq_zero_iff.mp (by omega)
    exact ⟨rfl, fun after' => by rw [List.singleton_append, stringSize_cons plain, if_pos rfl]; rfl⟩
  | case5 c rest none some other ih =>
    have plain := unescaped none some
    rw [List.cons_append, stringSize_cons plain, if_neg other, List.length_cons,
      Nat.add_right_cancel_iff] at closed
    obtain ⟨last, whatever⟩ := ih closed
    refine ⟨by rw [List.getLast?_cons, last]; rfl, fun after' => ?_⟩
    rw [List.cons_append, stringSize_cons plain, if_neg other, whatever, List.length_cons]

/-- A call that is closed in front of something is a call whatever follows it. -/
theorem startsSealedCall_append {text : Text} (long : 4 ≤ text.length) (after : Text) :
    startsSealedCall (text ++ after) = startsSealedCall text := by
  have known : ∀ word ∈ sealedFunctions, word.length = 4 := by decide
  rw [startsSealedCall, startsSealedCall, Bool.eq_iff_iff, List.any_eq_true, List.any_eq_true]
  refine exists_congr fun word => and_congr_right fun listed => ?_
  rw [← known word listed] at long
  rw [Text.startsWithKeyword, Text.dropKeyword?_append_of_ge after long, Option.isSome_map,
    Text.startsWithKeyword]

/-- A sealed part that something follows is closed. -/
theorem closed_of_sealedMatcher_append {before : Option Char} {c : Char} {rest after : Text}
    (ink : after ≠ [])
    (found : sealedMatcher before (c :: (rest ++ after)) = some ((), rest.length + 1)) :
    (Mode.isQuote c = true ∧ stringSize c (rest ++ after) = rest.length) ∨
      (Mode.isQuote c = false ∧ endsName before = false ∧ startsSealedCall (c :: rest) = true ∧
        ∃ opening inside, rest = opening ++ (inside ++ [')']) ∧ opening.length = 3 ∧
          Bracket.round.Balanced inside ∧ Closed inside) := by
  have more := List.length_pos_iff.mpr ink
  simp only [sealedMatcher] at found
  split at found
  next quote =>
    simp only [Option.some.injEq, Prod.mk.injEq, true_and] at found
    exact .inl ⟨quote, by omega⟩
  next quote =>
    split at found
    next call =>
      split at found
      next inside behind closes =>
        simp only [Option.some.injEq, Prod.mk.injEq, true_and] at found
        have long : 3 ≤ rest.length := by omega
        rw [List.drop_append_of_le_length long] at closes
        -- The parentheses are closed in the part itself.
        have whole : rest.drop 3 = inside ++ [')'] := by
          have start : rest.drop 3 ++ after = (inside ++ [')']) ++ behind := by
            rw [Bracket.splitFrom?_sound closes, List.append_assoc]
            rfl
          refine (List.append_inj start ?_).1
          simp only [List.length_drop, List.length_append, List.length_singleton]
          omega
        have balanced := Bracket.balanced_of_split? Bracket.round_sound closes
        have starts : startsSealedCall (c :: rest) = true := by
          rw [← startsSealedCall_append (by simpa using long) after]
          exact call.1
        refine .inr ⟨by simpa using quote, by simpa using call.2, starts, rest.take 3, inside, ?_,
          by simpa using long, balanced.1, balanced.2⟩
        rw [← whole, List.take_append_drop]
      next =>
        simp only [Option.some.injEq, Prod.mk.injEq, true_and, List.length_append] at found
        omega
    next => cases found

/-- A sealed part that something follows is one whatever follows it. -/
theorem sealedMatcher_exchange {before before' : Option Char} {content after after' : Text}
    (found : sealedMatcher before (content ++ after) = some ((), content.length))
    (names : endsName before' = endsName before) (ends : after = [] → after' = []) :
    sealedMatcher before' (content ++ after') = some ((), content.length) := by
  rw [sealedMatcher_congr names]
  rcases eq_or_ne after [] with rfl | ink
  · rwa [ends rfl]
  -- Something follows, so the part ends in its quote or its parenthesis and is told without more.
  cases content with
  | nil =>
    obtain ⟨c, tail, rfl⟩ := List.exists_cons_of_ne_nil ink
    have bound := sealedMatcher_size found
    simp at bound
  | cons c rest =>
    rw [List.cons_append] at found ⊢
    rcases closed_of_sealedMatcher_append ink found with
      ⟨quote, size⟩ | ⟨quote, outside, starts, opening, inside, rfl, three, balanced, closed⟩
    · rw [sealedMatcher, if_pos quote, (closed_of_stringSize ink size).2, List.length_cons,
        Nat.add_comm]
    · have long : 4 ≤ (c :: (opening ++ (inside ++ [')']))).length := by
        simp only [List.length_cons, List.length_append, three]
        omega
      have split := Bracket.split?_of_balanced Bracket.round_sound closed balanced after'
      have starts' : startsSealedCall (c :: (opening ++ (inside ++ [')']) ++ after')) = true := by
        rwa [← List.cons_append, startsSealedCall_append long]
      have behind : (opening ++ (inside ++ [')']) ++ after').drop 3 = inside ++ ')' :: after' := by
        rw [← three, List.append_assoc, List.drop_left, List.append_assoc]
        rfl
      rw [sealedMatcher, if_neg (by simp [quote]), if_pos ⟨starts', by simp [outside]⟩, behind]
      simp only [Bracket.round] at split ⊢
      rw [split]
      simp only [List.length_cons, List.length_append, three, List.length_nil]
      congr 2
      omega

theorem isWord_of_isQuote {c : Char} (quote : Mode.isQuote c = true) : Text.isWord c = false := by
  rcases Mode.eq_of_isQuote quote with rfl | rfl <;> decide

/-- A sealed part that something follows ends in no word. -/
theorem isWord_getLast?_of_sealedMatcher {before : Option Char} {content after : Text}
    (ink : after ≠ [])
    (found : sealedMatcher before (content ++ after) = some ((), content.length)) :
    Text.isWord? content.getLast? = false := by
  cases content with
  | nil => rfl
  | cons c rest =>
    rcases closed_of_sealedMatcher_append ink found with
      ⟨quote, size⟩ | ⟨_, _, _, opening, inside, rfl, _⟩
    · rw [List.getLast?_cons, (closed_of_stringSize ink size).1]
      exact isWord_of_isQuote quote
    · rw [List.getLast?_cons, ← List.append_assoc, List.getLast?_concat]
      rfl

/-! ### Where nothing opens -/

/-- What opens at a character: a string, or a call of `var` or `url`. -/
def opensSealed (c : Char) : Bool :=
  Mode.isQuote c || Text.meetsLetter 'v' c || Text.meetsLetter 'u' c

/-- The first letter of each sealed function, and the others. -/
def stems : List (Char × Text) := [('v', ['a', 'r']), ('u', ['r', 'l'])]

theorem startsWithKeyword_cons {letter c : Char} {word rest : Text} :
    Text.startsWithKeyword (letter :: word) (c :: rest) = true ↔
      Text.meetsLetter letter c = true ∧ Text.startsWithKeyword word rest = true := by
  simp only [Text.startsWithKeyword, Text.dropKeyword?]
  split
  next meets => simp [meets]
  next meets => simp [meets]

theorem startsSealedCall_cons {c : Char} {rest : Text} :
    startsSealedCall (c :: rest) = true ↔ ∃ stem ∈ stems,
      Text.meetsLetter stem.1 c = true ∧
        Text.startsWithKeyword (stem.2 ++ ['(']) rest = true := by
  simp [startsSealedCall, sealedFunctions, callWord, stems, startsWithKeyword_cons]

/-- A letter of a sealed function. -/
def sealedLetters : Text := ['v', 'a', 'r', 'u', 'l']

theorem isWord_of_meetsSealed {letter c : Char} (listed : letter ∈ sealedLetters)
    (meets : Text.meetsLetter letter c = true) : Text.isWord c = true :=
  @Text.meetsLetter_induction sealedLetters Text.isWord (by decide) (by decide) letter c listed
    meets

section silent

variable {before : Option Char} {after : Text}

theorem sealedMatcher_of_apart {c : Char} (apart : opensSealed c = false) (rest : Text) :
    sealedMatcher before (c :: rest) = none := by
  simp only [opensSealed, Bool.or_eq_false_iff] at apart
  refine sealedMatcher_eq_none_iff.mpr ⟨apart.1.1, fun starts => ?_⟩
  obtain ⟨stem, listed, meets, _⟩ := startsSealedCall_cons.mp starts
  simp only [stems, List.mem_cons, List.not_mem_nil, or_false] at listed
  rcases listed with rfl | rfl
  · rw [apart.1.2] at meets
    cases meets
  · rw [apart.2] at meets
    cases meets

theorem silent_of_apart {text : Text} (apart : ∀ c ∈ text, opensSealed c = false) :
    Text.Silent sealedMatcher before text after :=
  Text.silent_of_forall (fun c member _ => sealedMatcher_of_apart (apart c member)) before after

theorem unquoted_of_silent {text : Text} (silent : Text.Silent sealedMatcher before text after) :
    ∀ c ∈ text, Mode.isQuote c = false := by
  induction text generalizing before with
  | nil => simp
  | cons c rest ih =>
    obtain ⟨here, later⟩ := Text.silent_cons_iff.mp silent
    exact List.forall_mem_cons.mpr ⟨(sealedMatcher_eq_none_iff.mp here).1, ih later⟩

/-- Nothing opens in arguments, for they hold no parenthesis. -/
theorem silent_of_flat {inside : Text} (flat : Flat inside)
    (unquoted : ∀ c ∈ inside, Mode.isQuote c = false) :
    Text.Silent sealedMatcher before inside (')' :: after) := by
  induction inside generalizing before with
  | nil => exact Text.silent_nil before _
  | cons c rest ih =>
    rw [List.forall_mem_cons] at unquoted
    have flatRest : Flat rest := fun d member => flat d (List.mem_cons_of_mem _ member)
    refine Text.silent_cons_iff.mpr ⟨?_, ih flatRest unquoted.2⟩
    refine sealedMatcher_eq_none_iff.mpr ⟨unquoted.1, fun starts => ?_⟩
    obtain ⟨stem, listed, _, opens⟩ := startsSealedCall_cons.mp starts
    have apart : ∀ stem ∈ stems, Text.breaks (stem.2 ++ ['(']) ')' = true := by decide
    rw [Text.startsWithKeyword_append_breaks (apart stem listed), Text.startsWithKeyword,
      Option.isSome_iff_exists] at opens
    obtain ⟨behind, dropped⟩ := opens
    obtain ⟨d, member, meets⟩ :=
      Text.exists_meets_of_dropKeyword? (List.mem_append_right stem.2 (List.mem_singleton_self '('))
        dropped
    have parenthesis := flatRest d member
    rw [Text.eq_of_meets_parenthesis meets] at parenthesis
    cases parenthesis

/-- Nothing opens in a literal. -/
theorem silent_literal {tile : Tile} (sound : tile.Sound) {literal : Literal}
    (named : tile.literal? = some literal)
    (unquoted : ∀ c ∈ tile.text, Mode.isQuote c = false) :
    Text.Silent sealedMatcher before tile.text after := by
  cases tile with
  | plain c => cases named
  | hex digits =>
    apply silent_of_apart
    rw [Tile.text, List.forall_mem_cons]
    refine ⟨by decide, fun c member => ?_⟩
    have apart := @isHexDigit_induction (!opensSealed ·) (by decide) c (sound.2 c member)
    simpa using apart
  | call function met inside =>
    rw [Tile.text, List.forall_mem_append, List.forall_mem_cons, List.forall_mem_append] at unquoted
    rw [Tile.text, Text.silent_append_iff, Text.silent_cons_iff, Text.silent_append_iff]
    refine ⟨silent_of_apart fun c member => ?_, sealedMatcher_of_apart (by decide) _,
      silent_of_flat sound.2 unquoted.2.2.1,
      silent_of_apart (List.forall_mem_singleton.mpr (by decide))⟩
    obtain ⟨letter, listed, meets⟩ := exists_meets_of_namesCall sound.1 c member
    have apart := @Text.meetsLetter_induction callLetters (!opensSealed ·) (by decide) (by decide)
      letter c listed meets
    simpa using apart

end silent

/-! ### Exchanging literals -/

/-- Tiles of one kind that are free of quotes alike. -/
structure Tile.Swaps (tile new : Tile) : Prop where
  like : Tile.Like tile new
  unquoted : (∀ c ∈ tile.text, Mode.isQuote c = false) → ∀ c ∈ new.text, Mode.isQuote c = false

section exchange

variable {olds news : List Tile} {word : Bool}

theorem Tile.Like.endsName {tile new : Tile} (like : Tile.Like tile new) (sound : tile.Sound)
    (sound' : new.Sound) : Dark.endsName new.text.getLast? = Dark.endsName tile.text.getLast? := by
  have digit {digits : Text} (sound : (Tile.hex digits).Sound) :
      Dark.endsName (Tile.hex digits).text.getLast? = true :=
    endsName_of_isWord (isWord_getLast?_hex sound.1 sound.2)
  cases like with
  | plain c => rfl
  | hex digits digits' => rw [digit sound, digit sound']
  | call => rw [getLast?_call_text, getLast?_call_text]

/-- Behind a word character, a letter of a sealed function is met at a character and nowhere else:
a call starts behind none, and neither a number sign nor a quote is a letter. -/
theorem exists_plain_of_starts {letter : Char} (listed : letter ∈ '(' :: sealedLetters)
    {more after : Text} (like : List.Forall₂ Tile.Like olds news) (laid : Mosaic true olds)
    {last : Char} (inside : Text.isWord last = true)
    (edge : endsName ((tiled olds).getLast?.or (some last)) = true →
      ∀ c ∈ after.head?, Mode.isQuote c = true)
    (starts : Text.startsWithKeyword (letter :: more) (tiled news ++ after) = true) :
    ∃ d olds' news', olds = .plain d :: olds' ∧ news = .plain d :: news' ∧
      Text.meetsLetter letter d = true ∧ Text.startsWithKeyword more (tiled news' ++ after) = true ∧
      List.Forall₂ Tile.Like olds' news' ∧ Mosaic (Text.isWord d) olds' := by
  cases like with
  | nil =>
    cases after with
    | nil => simp [Text.startsWithKeyword, Text.dropKeyword?] at starts
    | cons c rest =>
      have quote := edge (endsName_of_isWord inside) c rfl
      have meets := (startsWithKeyword_cons.mp starts).1
      have unquoted := @Text.meetsLetter_induction ('(' :: sealedLetters) (!Mode.isQuote ·)
        (by decide) (by decide) letter c listed meets
      simp [quote] at unquoted
  | cons tile others =>
    cases tile with
    | plain d =>
      cases laid with | plain laid =>
      obtain ⟨meets, starts⟩ := startsWithKeyword_cons.mp starts
      exact ⟨d, _, _, rfl, rfl, meets, starts, others, laid⟩
    | hex digits digits' =>
      have meets := (startsWithKeyword_cons.mp starts).1
      have other : ('(' :: sealedLetters).all (!Text.meetsLetter · '#') = true := by decide
      have apart : Text.meetsLetter letter '#' = false := by
        simpa using List.all_eq_true.mp other letter listed
      rw [apart] at meets
      cases meets
    | call =>
      cases laid with | call outside =>
      cases outside

/-- The letters of a sealed function that are read over tiles are read over characters. -/
theorem startsWithKeyword_exchange {front : Text} (letters : front ⊆ sealedLetters)
    (like : List.Forall₂ Tile.Like olds news) (laid : Mosaic true olds) {last : Char}
    (inside : Text.isWord last = true) {after after' : Text}
    (edge : endsName ((tiled olds).getLast?.or (some last)) = true →
      ∀ c ∈ after'.head?, Mode.isQuote c = true)
    (starts : Text.startsWithKeyword (front ++ ['(']) (tiled news ++ after') = true) :
    Text.startsWithKeyword (front ++ ['(']) (tiled olds ++ after) = true := by
  induction front generalizing olds news last with
  | nil =>
    obtain ⟨d, olds, news, rfl, rfl, meets, _⟩ :=
      exists_plain_of_starts (List.mem_cons_self ..) like laid inside edge starts
    exact startsWithKeyword_cons.mpr ⟨meets, rfl⟩
  | cons letter front ih =>
    obtain ⟨listed, letters⟩ := List.cons_subset.mp letters
    obtain ⟨d, olds, news, rfl, rfl, meets, starts, like, laid⟩ :=
      exists_plain_of_starts (List.mem_cons_of_mem _ listed) like laid inside edge starts
    have within := isWord_of_meetsSealed listed meets
    rw [within] at laid
    rw [getLast?_tiled_cons] at edge
    exact startsWithKeyword_cons.mpr ⟨meets, ih letters like laid within edge starts⟩

/-- Where nothing opens in a text, nothing does after literals are exchanged. -/
theorem silent_exchange (swaps : List.Forall₂ Tile.Swaps olds news) (laid : Mosaic word olds)
    (laid' : Mosaic word news) {before before' : Option Char}
    (names : endsName before' = endsName before) {after after' : Text}
    (edge : endsName ((tiled olds).getLast?.or before) = true →
      ∀ c ∈ after'.head?, Mode.isQuote c = true)
    (silent : Text.Silent sealedMatcher before (tiled olds) after) :
    Text.Silent sealedMatcher before' (tiled news) after' := by
  induction swaps generalizing word before before' with
  | nil => exact Text.silent_nil before' after'
  | @cons tile new olds news swap others ih =>
    have sound' := laid'.sound new (List.mem_cons_self ..)
    have names' := swap.like.endsName (laid.sound tile (List.mem_cons_self ..)) sound'
    obtain ⟨here, later⟩ := Text.silent_append_iff.mp silent
    have unquoted := swap.unquoted (unquoted_of_silent here)
    rw [Tile.getLast?_or] at later
    rw [getLast?_tiled_cons] at edge
    rw [tiled_cons, Text.silent_append_iff, Tile.getLast?_or]
    obtain ⟨like, _⟩ := swap
    cases like with
    | plain c =>
      cases laid with | plain laid =>
      cases laid' with | plain laid' =>
      refine ⟨Text.silent_cons_iff.mpr ⟨?_, Text.silent_nil _ _⟩, ih laid laid' names' edge later⟩
      obtain ⟨plain, opens⟩ := sealedMatcher_eq_none_iff.mp (Text.silent_cons_iff.mp here).1
      -- A call that started here in the new text would start here in the old one.
      refine sealedMatcher_eq_none_iff.mpr ⟨plain, fun starts => ?_⟩
      rw [names]
      apply opens
      obtain ⟨stem, listed, meets, starts⟩ := startsSealedCall_cons.mp starts
      have known : ∀ stem ∈ stems, stem.1 ∈ sealedLetters ∧ stem.2 ⊆ sealedLetters := by decide
      have inside := isWord_of_meetsSealed (known stem listed).1 meets
      rw [inside] at laid
      have likes := others.imp fun _ _ swap => swap.like
      exact startsSealedCall_cons.mpr ⟨stem, listed, meets,
        startsWithKeyword_exchange (known stem listed).2 likes laid inside edge starts⟩
    | hex digits digits' =>
      cases laid with | hex _ _ laid =>
      cases laid' with | hex _ _ laid' =>
      exact ⟨silent_literal sound' rfl unquoted, ih laid laid' names' edge later⟩
    | call =>
      cases laid with | call _ _ _ laid =>
      cases laid' with | call _ _ _ laid' =>
      exact ⟨silent_literal sound' rfl unquoted, ih laid laid' names' edge later⟩

end exchange

/-! ### Values in parts -/

/-- Sealed and plain parts, as a search for sealed parts finds them. -/
inductive Parted : Option Char → List Segment → Prop where
  | nil {before : Option Char} : Parted before []
  | plain {before : Option Char} {content : Text} {rest : List Segment} : content ≠ [] →
      Text.Silent sealedMatcher before content (rest.flatMap Segment.text) →
        (∀ other, rest.head? ≠ some (.plain other)) → Parted content.getLast? rest →
          Parted before (.plain content :: rest)
  | sealed {before : Option Char} {content : Text} {rest : List Segment} : content ≠ [] →
      sealedMatcher before (content ++ rest.flatMap Segment.text) = some ((), content.length) →
        Parted content.getLast? rest → Parted before (.sealed content :: rest)

theorem parted_gather (before : Option Char) (text : Text) :
    Parted before (gather (Text.fragments sealedMatcher before text)) := by
  have whole (before : Option Char) (text : Text) :
      (gather (Text.fragments sealedMatcher before text)).flatMap Segment.text = text := by
    rw [flatMap_text_gather, Text.flatMap_text_fragments]
  fun_induction Text.fragments sealedMatcher before text with
  | case1 => exact .nil
  | case2 before c rest misses ih =>
    have behind := whole (some c) rest
    -- The character joins a plain part behind it, or is one of its own.
    rw [gather]
    split
    next content segments same =>
      rw [same] at ih behind
      rw [List.flatMap_cons, Segment.text] at behind
      obtain _ | ⟨ink, silent, alone, parted⟩ | _ := ih
      refine .plain (by simp) (Text.silent_cons_iff.mpr ⟨by rw [behind]; exact misses, silent⟩)
        alone ?_
      rw [List.getLast?_cons]
      rw [List.getLast?_eq_some_getLast ink] at parted ⊢
      exact parted
    next other =>
      refine .plain (by simp) (Text.silent_cons_iff.mpr ⟨by rw [behind]; exact misses,
        Text.silent_nil _ _⟩) (fun content same => ?_) ih
      obtain ⟨segments, parts⟩ := List.head?_eq_some_iff.mp same
      exact other content segments parts
  | case3 before c rest value size found inner ih =>
    obtain ⟨least, most⟩ := sealedMatcher_size found
    have last : some (inner.getLastD c) = (c :: inner).getLast? := by
      rw [List.getLast?_cons, List.getLastD_eq_getLast?]
    rw [last] at ih ⊢
    refine .sealed (by simp) ?_ ih
    rw [whole, List.cons_append, List.take_append_drop, found]
    simp only [inner, List.length_cons, List.length_take]
    rw [Nat.min_eq_left (by omega), Nat.sub_add_cancel least]

theorem gather_map_plain {content : Text} (ink : content ≠ []) {parts : List (Text.Fragment Unit)}
    (alone : ∀ other, (gather parts).head? ≠ some (.plain other)) :
    gather (content.map .plain ++ parts) = .plain content :: gather parts := by
  induction content with
  | nil => exact absurd rfl ink
  | cons c rest ih =>
    rw [List.map_cons, List.cons_append, gather]
    rcases eq_or_ne rest [] with rfl | more
    · rw [List.map_nil, List.nil_append]
      split
      next content segments same => exact absurd (by rw [same]; rfl) (alone content)
      next => rfl
    · rw [ih more]

namespace Parted

variable {before : Option Char} {segs : List Segment} (parted : Parted before segs)
include parted

/-- A search for sealed parts finds them. -/
theorem gather_eq :
    gather (Text.fragments sealedMatcher before (segs.flatMap Segment.text)) = segs := by
  induction parted with
  | nil => simp [Text.fragments, gather]
  | @plain before content rest ink silent alone _ ih =>
    rw [List.flatMap_cons, Segment.text, Text.fragments_append_of_silent _ silent,
      Text.getLast?_or_of_ne_nil ink, gather_map_plain ink (by rwa [ih]), ih]
  | @sealed before content rest ink found _ ih =>
    rw [List.flatMap_cons, Segment.text, Text.fragments_of_hit ink found, gather, ih]

/-- Behind a name only a string is sealed. -/
theorem isQuote_head (alone : ∀ other, segs.head? ≠ some (.plain other))
    (names : endsName before = true) :
    ∀ c ∈ (segs.flatMap Segment.text).head?, Mode.isQuote c = true := by
  cases parted with
  | nil => simp
  | plain => exact absurd rfl (alone _)
  | @sealed _ content rest ink found =>
    obtain ⟨c, tail, rfl⟩ := List.exists_cons_of_ne_nil ink
    rw [List.flatMap_cons, Segment.text, List.cons_append, List.head?_cons]
    rintro d ⟨⟩
    by_contra quote
    rw [List.cons_append, sealedMatcher, if_neg quote, if_neg (by simp [names])] at found
    cases found

theorem isWord_head (alone : ∀ other, segs.head? ≠ some (.plain other))
    (word : Text.isWord? before = true) :
    Text.isWord? (segs.flatMap Segment.text).head? = false := by
  have names := endsName_of_isWord word
  cases head : (segs.flatMap Segment.text).head? with
  | none => rfl
  | some c => exact isWord_of_isQuote (parted.isQuote_head alone names c head)

end Parted

/-- Parts of one kind; a sealed one is the same, and tiles are exchanged in a plain one. -/
inductive Segment.Swaps : Segment → Segment → Prop where
  | plain {olds news : List Tile} : List.Forall₂ Tile.Swaps olds news → Mosaic false olds →
      Mosaic false news → Swaps (.plain (tiled olds)) (.plain (tiled news))
  | sealed (content : Text) : Swaps (.sealed content) (.sealed content)

theorem tiled_eq_nil_iff {tiles : List Tile} : tiled tiles = [] ↔ tiles = [] := by
  cases tiles with
  | nil => simp
  | cons tile rest => simp [tile.text_ne_nil]

theorem eq_nil_of_swaps {olds news : List Segment} (swaps : List.Forall₂ Segment.Swaps olds news)
    (none : olds.flatMap Segment.text = []) : news.flatMap Segment.text = [] := by
  induction swaps with
  | nil => rfl
  | cons swap _ ih =>
    rw [List.flatMap_cons, List.append_eq_nil_iff] at none ⊢
    refine ⟨?_, ih none.2⟩
    cases swap with
    | plain tiles =>
      obtain rfl := tiled_eq_nil_iff.mp none.1
      cases tiles
      rfl
    | sealed => exact none.1

theorem endsName_exchange {olds news : List Tile} (swaps : List.Forall₂ Tile.Swaps olds news)
    {word : Bool} (laid : Mosaic word olds) (laid' : Mosaic word news)
    {before before' : Option Char} (names : endsName before' = endsName before) :
    endsName ((tiled news).getLast?.or before') = endsName ((tiled olds).getLast?.or before) := by
  have sound := laid.sound
  have sound' := laid'.sound
  clear laid laid'
  induction swaps generalizing before before' with
  | nil => exact names
  | cons swap _ ih =>
    rw [List.forall_mem_cons] at sound sound'
    rw [getLast?_tiled_cons, getLast?_tiled_cons]
    exact ih (swap.like.endsName sound.1 sound'.1) sound.2 sound'.2

/-- After plain parts are exchanged the sealed ones are found where they were. -/
theorem Parted.exchange {before before' : Option Char} {olds news : List Segment}
    (parted : Parted before olds) (swaps : List.Forall₂ Segment.Swaps olds news)
    (names : endsName before' = endsName before) : Parted before' news := by
  induction parted generalizing news before' with
  | nil =>
    cases swaps
    exact .nil
  | @plain before content rest ink silent alone _ ih =>
    obtain _ | @⟨_, _, _, rests, swap, others⟩ := swaps
    obtain @⟨tiles, newTiles, tileSwaps, laid, laid'⟩ | _ := swap
    have ink' : tiled newTiles ≠ [] := by
      rw [Ne, tiled_eq_nil_iff] at ink ⊢
      rintro rfl
      cases tileSwaps
      exact ink rfl
    have alone' : ∀ other, rests.head? ≠ some (.plain other) := by
      cases others with
      | nil => simp
      | cons swap _ =>
        cases swap with
        | plain => exact absurd rfl (alone _)
        | «sealed» => simp
    have ends := endsName_exchange tileSwaps laid laid' names
    rw [Text.getLast?_or_of_ne_nil ink, Text.getLast?_or_of_ne_nil ink'] at ends
    have behind := ih others ends
    -- A sealed part behind a name opens with a quote, before and after the exchange.
    have edge : endsName ((tiled tiles).getLast?.or before) = true →
        ∀ c ∈ (rests.flatMap Segment.text).head?, Mode.isQuote c = true := by
      rw [Text.getLast?_or_of_ne_nil ink, ← ends]
      exact behind.isQuote_head alone'
    exact .plain ink' (silent_exchange tileSwaps laid laid' names edge silent) alone' behind
  | @sealed before content rest ink found _ ih =>
    obtain _ | ⟨swap, others⟩ := swaps
    obtain _ | _ := swap
    exact .sealed ink (sealedMatcher_exchange found names (eq_nil_of_swaps others)) (ih others rfl)

end ThemeCss.Dark
