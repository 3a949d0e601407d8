import ThemeCss.Proofs.Dark.Passes

/-!
# Tiles

Text without sealed parts is laid out in tiles: single characters, hexadecimal literals and calls.
Whether a call starts at a character depends on what kinds of tiles follow it and not on the digits
and arguments in them, for the name of a call is made of word characters, starts behind none and has
the next two parentheses to itself. So literals can be exchanged without a call coming up or going.
-/
namespace ThemeCss.Text

/-- The characters beyond ASCII that meet a letter. -/
def strayLetters : Text := ['ſ', '\u212A', 'İ', 'ı']

theorem meetsLetter_cases {letter c : Char} (ascii : letter.toNat < 0x80)
    (meets : meetsLetter letter c = true) : c.toNat < 0x80 ∨ c ∈ strayLetters := by
  simp only [meetsLetter, Bool.or_eq_true, Bool.and_eq_true, beq_iff_eq] at meets
  rcases meets with ((lower | ⟨_, rfl⟩) | ⟨_, rfl⟩) | ⟨_, rfl | rfl⟩
  · left
    rw [← lower] at ascii
    unfold Char.toLower at ascii
    split at ascii
    next upper =>
      have bound := UInt32.le_iff_toNat_le.mp upper.2
      exact Nat.lt_of_le_of_lt bound (by decide)
    next => exact ascii
  all_goals exact .inr (by decide)

/-- The characters that meet an ASCII letter. -/
def metBy (letter : Char) : Text :=
  ((List.range 0x80).map Char.ofNat ++ strayLetters).filter (meetsLetter letter)

theorem mem_metBy {letter c : Char} (ascii : letter.toNat < 0x80)
    (meets : meetsLetter letter c = true) : c ∈ metBy letter := by
  rw [metBy, List.mem_filter, List.mem_append, List.mem_map]
  refine ⟨(meetsLetter_cases ascii meets).imp (fun small => ?_) id, meets⟩
  exact ⟨c.toNat, List.mem_range.mpr small, Char.ofNat_toNat c⟩

/-- What is shown of the few characters that meet some letters holds of all that do. -/
theorem meetsLetter_induction {letters : Text} {P : Char → Bool}
    (ascii : letters.all (·.toNat < 0x80) = true) (each : (letters.flatMap metBy).all P = true)
    {letter c : Char} (listed : letter ∈ letters) (meets : meetsLetter letter c = true) :
    P c = true := by
  have small : letter.toNat < 0x80 := by simpa using List.all_eq_true.mp ascii letter listed
  exact List.all_eq_true.mp each c
    (List.mem_flatMap.mpr ⟨letter, listed, mem_metBy small meets⟩)

/-- What is met of a keyword meets its letters. -/
theorem exists_meets_of_isKeyword {word text : Text} (keyword : isKeyword word text = true) :
    ∀ c ∈ text, ∃ letter ∈ word, meetsLetter letter c = true := by
  induction word generalizing text with
  | nil =>
    have none : text = [] := by simpa using isKeyword_length keyword
    simp [none]
  | cons letter word ih =>
    cases text with
    | nil => simp
    | cons c rest =>
      simp only [isKeyword, dropKeyword?] at keyword
      split at keyword
      next meets =>
        rw [List.forall_mem_cons]
        refine ⟨⟨letter, List.mem_cons_self .., meets⟩, fun d member => ?_⟩
        obtain ⟨other, listed, meets⟩ := ih keyword d member
        exact ⟨other, List.mem_cons_of_mem _ listed, meets⟩
      next => simp at keyword

end ThemeCss.Text

namespace ThemeCss.Dark

open Colour

/-! ### Literals -/

/-- The functions whose calls are colours. -/
inductive Function where
  | rgb
  | hsl
  deriving DecidableEq, Repr

namespace Function

def name : Function → Text
  | rgb => ['r', 'g', 'b']
  | hsl => ['h', 's', 'l']

def read : Function → Text → Option Painted
  | rgb => parseRgb?
  | hsl => parseHsl?

theorem callName (function : Function) : CallName function.name := by
  cases function
  · exact callName_rgb
  · exact callName_hsl

end Function

/-- A kind of literals: digits behind a number sign, or calls of a function. -/
inductive Kind where
  | hex
  | call (function : Function)
  deriving DecidableEq, Repr

def Kind.matcher : Kind → Text.Matcher Text
  | hex => hexMatcher
  | call function => callMatcher function.name

/-- A literal with its digits or arguments. -/
structure Literal where
  kind : Kind
  body : Text
  deriving DecidableEq, Repr

/-- The letters that names of calls are made of. -/
def callLetters : Text := ['r', 'g', 'b', 'h', 's', 'l', 'a']

theorem exists_meets_of_namesCall {function : Function} {met : Text}
    (names : namesCall function.name met = true) :
    ∀ c ∈ met, ∃ letter ∈ callLetters, Text.meetsLetter letter c = true := by
  obtain ⟨word, letter, rfl, keyword, closing⟩ := exists_of_namesCall names
  have known {word text : Text} (known : word ⊆ callLetters)
      (keyword : Text.isKeyword word text = true) :
      ∀ c ∈ text, ∃ letter ∈ callLetters, Text.meetsLetter letter c = true := fun c member => by
    obtain ⟨letter, listed, meets⟩ := Text.exists_meets_of_isKeyword keyword c member
    exact ⟨letter, known listed, meets⟩
  rw [List.forall_mem_append]
  constructor
  · apply known _ keyword
    cases function <;> decide
  · rcases closing with rfl | keyword
    · simp
    · exact known (by decide) keyword

/-- The name of a call is made of word characters. -/
theorem isWord_of_namesCall {function : Function} {met : Text}
    (names : namesCall function.name met = true) : ∀ c ∈ met, Text.isWord c = true := by
  intro c member
  obtain ⟨letter, listed, meets⟩ := exists_meets_of_namesCall names c member
  exact @Text.meetsLetter_induction callLetters Text.isWord (by decide) (by decide) letter c listed
    meets

theorem exists_head_of_namesCall {function : Function} {met : Text}
    (names : namesCall function.name met = true) :
    ∃ c rest, met = c :: rest ∧
      ∃ letter ∈ function.name.head?, Text.meetsLetter letter c = true := by
  obtain ⟨letter, word, named⟩ := List.exists_cons_of_ne_nil function.callName.ink
  rw [named] at names ⊢
  cases met with
  | nil => simp [namesCall, Text.dropKeyword?] at names
  | cons c rest =>
    refine ⟨c, rest, rfl, letter, rfl, ?_⟩
    cases meets : Text.meetsLetter letter c with
    | true => rfl
    | false => simp [namesCall, Text.dropKeyword?, meets] at names

/-- No text is the name of both functions. -/
theorem namesCall_unique {function other : Function} {met : Text}
    (names : namesCall function.name met = true) (names' : namesCall other.name met = true) :
    function = other := by
  obtain ⟨c, rest, rfl, letter, head, meets⟩ := exists_head_of_namesCall names
  obtain ⟨_, _, same, letter', head', meets'⟩ := exists_head_of_namesCall names'
  obtain ⟨rfl, rfl⟩ := List.cons.inj same
  have apart {d : Char} (red : Text.meetsLetter 'r' d = true) : Text.meetsLetter 'h' d = false := by
    have other := @Text.meetsLetter_induction ['r'] (!Text.meetsLetter 'h' ·) (by decide)
      (by decide) 'r' d (by decide) red
    simpa using other
  cases function <;> cases other
  · rfl
  · obtain rfl : 'r' = letter := Option.some.inj head
    obtain rfl : 'h' = letter' := Option.some.inj head'
    rw [apart meets] at meets'
    cases meets'
  · obtain rfl : 'h' = letter := Option.some.inj head
    obtain rfl : 'r' = letter' := Option.some.inj head'
    rw [apart meets'] at meets
    cases meets
  · rfl

/-! ### Tiles -/

inductive Tile where
  | plain (c : Char)
  | hex (digits : Text)
  | call (function : Function) (met inside : Text)

namespace Tile

def text : Tile → Text
  | plain c => [c]
  | hex digits => '#' :: digits
  | call _ met inside => met ++ '(' :: (inside ++ [')'])

def literal? : Tile → Option Literal
  | plain _ => none
  | hex digits => some ⟨.hex, digits⟩
  | call function _ inside => some ⟨.call function, Text.trimLeft inside⟩

/-- What a search for the literals of a kind makes of a tile. -/
def read (kind : Kind) (tile : Tile) : List (Text.Fragment Text) :=
  match tile.literal? with
  | some literal => if literal.kind = kind then [.hit literal.body tile.text]
    else tile.text.map .plain
  | none => tile.text.map .plain

end Tile

/-- The text that is laid out. -/
def tiled (tiles : List Tile) : Text := tiles.flatMap Tile.text

@[simp] theorem tiled_nil : tiled [] = [] := rfl

@[simp] theorem tiled_cons (tile : Tile) (rest : List Tile) :
    tiled (tile :: rest) = tile.text ++ tiled rest := rfl

/-- The same kind of tile; only one and the same character is like a character. -/
inductive Tile.Like : Tile → Tile → Prop where
  | plain (c : Char) : Like (.plain c) (.plain c)
  | hex (digits digits' : Text) : Like (.hex digits) (.hex digits')
  | call (function function' : Function) (met inside met' inside' : Text) :
      Like (.call function met inside) (.call function' met' inside')

/-- Tiles behind a word character or another: digits are digits, and a call starts at a boundary
with a name and has no parentheses but its own. -/
inductive Mosaic : Bool → List Tile → Prop where
  | nil {word : Bool} : Mosaic word []
  | plain {word : Bool} {c : Char} {rest : List Tile} :
      Mosaic (Text.isWord c) rest → Mosaic word (.plain c :: rest)
  | hex {word : Bool} {digits : Text} {rest : List Tile} :
      digits ≠ [] → (∀ c ∈ digits, isHexDigit c = true) →
        Mosaic true rest → Mosaic word (.hex digits :: rest)
  | call {word : Bool} {function : Function} {met inside : Text} {rest : List Tile} :
      word = false → namesCall function.name met = true → Flat inside →
        Mosaic false rest → Mosaic word (.call function met inside :: rest)

/-- The parts of a tile are what they have to be. -/
def Tile.Sound : Tile → Prop
  | .plain _ => True
  | .hex digits => digits ≠ [] ∧ ∀ c ∈ digits, isHexDigit c = true
  | .call function met inside => namesCall function.name met = true ∧ Flat inside

theorem Mosaic.sound {word : Bool} {tiles : List Tile} (laid : Mosaic word tiles) :
    ∀ tile ∈ tiles, tile.Sound := by
  induction laid with
  | nil => simp
  | plain _ ih => exact List.forall_mem_cons.mpr ⟨trivial, ih⟩
  | hex ink digital _ ih => exact List.forall_mem_cons.mpr ⟨⟨ink, digital⟩, ih⟩
  | call _ names flat _ ih => exact List.forall_mem_cons.mpr ⟨⟨names, flat⟩, ih⟩

/-! ### Where a call starts -/

/-- Where the next parenthesis closes, what stands in front of it holds none. -/
theorem exists_of_closes {text : Text} (closed : closes text = true) :
    ∃ inside after, text = inside ++ ')' :: after ∧ Flat inside := by
  rw [closes, beq_iff_eq, List.head?_eq_some_iff] at closed
  obtain ⟨after, stop⟩ := closed
  refine ⟨text.takeWhile (!isParenthesis ·), after, ?_, fun c member => ?_⟩
  · rw [← stop, List.takeWhile_append_dropWhile]
  · simpa using List.all_eq_true.mp List.all_takeWhile c member

section matching

variable {name : Text} (callName : CallName name)
include callName

/-- A call stands where the matcher answers: a name at a boundary with parentheses behind it. -/
theorem callMatcher_eq_some_iff {before : Option Char} {text body : Text} {size : Nat} :
    callMatcher name before text = some (body, size) ↔
      Text.isWord? before = false ∧ ∃ met inside after,
        text = (met ++ '(' :: (inside ++ [')'])) ++ after ∧ Flat met ∧
        namesCall name met = true ∧ Flat inside ∧ body = Text.trimLeft inside ∧
        size = (met ++ '(' :: (inside ++ [')'])).length := by
  constructor
  · intro found
    rcases Text.exists_stop isParenthesis text with flat | ⟨met, mark, tail, rfl, stop, flat⟩
    · rw [callMatcher_flat callName.apart before flat] at found
      cases found
    · -- Only a name in front of an opening parenthesis is answered.
      by_cases quiet : Text.isWord? before = false → namesCall name met = true → mark = '(' →
          closes tail = false
      · rw [callMatcher_quiet callName.apart flat stop quiet] at found
        cases found
      · simp only [Classical.not_imp, Bool.not_eq_false] at quiet
        obtain ⟨boundary, names, rfl, closed⟩ := quiet
        obtain ⟨inside, after, rfl, flatInside⟩ := exists_of_closes closed
        have parts : met ++ '(' :: (inside ++ ')' :: after)
            = (met ++ '(' :: (inside ++ [')'])) ++ after := by simp
        rw [parts, callMatcher_call callName.apart boundary flat names flatInside] at found
        obtain ⟨rfl, rfl⟩ := Prod.mk.inj (Option.some.inj found)
        exact ⟨boundary, met, inside, after, parts, flat, names, flatInside, rfl, rfl⟩
  · rintro ⟨boundary, met, inside, after, rfl, flat, names, flatInside, rfl, rfl⟩
    exact callMatcher_call callName.apart boundary flat names flatInside after

end matching

section names

variable {function : Function}

theorem flat_of_namesCall {met : Text} (names : namesCall function.name met = true) : Flat met := by
  intro c member
  cases parenthesis : isParenthesis c with
  | false => rfl
  | true =>
    have word := isWord_of_namesCall names c member
    rcases eq_of_isParenthesis parenthesis with rfl | rfl <;> exact absurd word (by decide)

theorem flat_of_isHexDigit {digits : Text} (hexadecimal : ∀ c ∈ digits, isHexDigit c = true) :
    Flat digits := fun c member =>
  Pigments.unparenthesised (fun _ held => isPigment_of_isHexDigit (hexadecimal _ held)) c member

/-- No call starts where no name stands in front of a parenthesis. -/
theorem callMatcher_of_unnamed {before : Option Char} {text : Text}
    (unnamed : ∀ met rest, text = met ++ '(' :: rest → namesCall function.name met ≠ true) :
    callMatcher function.name before text = none := by
  rw [Option.eq_none_iff_forall_not_mem]
  rintro ⟨body, size⟩ found
  obtain ⟨_, met, inside, after, parts, _, names, _⟩ :=
    (callMatcher_eq_some_iff function.callName).mp found
  rw [List.append_assoc, List.cons_append] at parts
  exact unnamed met _ parts names

/-- No call starts in front of a character that is no part of a name. -/
theorem callMatcher_of_nonword {before : Option Char} {front : Text} (flat : Flat front)
    {c : Char} (listed : c ∈ front) (other : Text.isWord c = false) (tail : Text) :
    callMatcher function.name before (front ++ tail) = none := by
  apply callMatcher_of_unnamed
  intro met rest parts names
  have outside : c ∉ met := fun member => by
    rw [isWord_of_namesCall names c member] at other
    cases other
  -- The name takes all that stands in front of its parenthesis, so the character is part of it.
  rcases List.append_eq_append_iff.mp parts with ⟨gap, rfl, _⟩ | ⟨gap, rfl, behind⟩
  · exact outside (List.mem_append_left _ listed)
  · cases gap with
    | nil =>
      rw [List.append_nil] at listed
      exact outside listed
    | cons d gap =>
      rw [List.cons_append] at behind
      obtain ⟨rfl, _⟩ := List.cons.inj behind
      exact absurd (flat '(' (by simp)) (by decide)

/-- No call starts at a digit. -/
theorem callMatcher_of_isHexDigit {before : Option Char} {c : Char} (digit : isHexDigit c = true)
    (tail : Text) : callMatcher function.name before (c :: tail) = none := by
  apply callMatcher_of_unnamed
  intro met rest parts names
  obtain ⟨d, more, rfl, _⟩ := exists_head_of_namesCall names
  obtain ⟨rfl, _⟩ := List.cons.inj parts
  rw [function.callName.namesCall_of_isHexDigit digit] at names
  cases names

/-- No call starts at a parenthesis. -/
theorem callMatcher_of_isParenthesis {before : Option Char} {c : Char}
    (parenthesis : isParenthesis c = true) (rest : Text) :
    callMatcher function.name before (c :: rest) = none := by
  apply callMatcher_of_unnamed
  intro met more parts names
  obtain ⟨d, _, rfl, _⟩ := exists_head_of_namesCall names
  obtain ⟨rfl, _⟩ := List.cons.inj parts
  rw [flat_of_namesCall names c (List.mem_cons_self ..)] at parenthesis
  cases parenthesis

/-- No call starts at a boundary that is none. -/
theorem callMatcher_of_word {before : Option Char} (word : Text.isWord? before = true)
    (text : Text) : callMatcher function.name before text = none := by
  rw [callMatcher, if_pos word]

end names

/-! ### Exchanging literals -/

theorem closes_cons (c : Char) (rest : Text) :
    closes (c :: rest) = if isParenthesis c then c == ')' else closes rest := by
  cases parenthesis : isParenthesis c <;> simp [closes, parenthesis]

theorem closes_flat_append {front : Text} (flat : Flat front) (rest : Text) :
    closes (front ++ rest) = closes rest := by
  induction front with
  | nil => rfl
  | cons c front ih =>
    rw [List.cons_append, closes_cons, flat c (List.mem_cons_self ..)]
    exact ih fun d member => flat d (List.mem_cons_of_mem _ member)

section exchange

variable {olds news : List Tile} (like : List.Forall₂ Tile.Like olds news)
include like

/-- The parentheses of a text are those of its characters and calls. -/
theorem closes_tiled {word word' : Bool} (laid : Mosaic word olds) (laid' : Mosaic word' news) :
    closes (tiled news) = closes (tiled olds) := by
  induction like generalizing word word' with
  | nil => rfl
  | cons tile others ih =>
    cases tile with
    | plain c =>
      cases laid with | plain laid =>
      cases laid' with | plain laid' =>
      rw [tiled_cons, tiled_cons, Tile.text, List.singleton_append, List.singleton_append,
        closes_cons, closes_cons, ih laid laid']
    | hex digits digits' =>
      cases laid with | hex _ digital laid =>
      cases laid' with | hex _ digital' laid' =>
      have flat {digits : Text} (digital : ∀ c ∈ digits, isHexDigit c = true) :
          Flat ('#' :: digits) := by
        rw [Flat, List.forall_mem_cons]
        exact ⟨rfl, flat_of_isHexDigit digital⟩
      rw [tiled_cons, tiled_cons, Tile.text, Tile.text, closes_flat_append (flat digital),
        closes_flat_append (flat digital'), ih laid laid']
    | call function function' met inside met' inside' =>
      cases laid with | call _ names _ _ =>
      cases laid' with | call _ names' _ _ =>
      have opens {function : Function} {met : Text} (names : namesCall function.name met = true)
          (tail : Text) : closes (met ++ '(' :: tail) = false := by
        rw [closes_flat_append (flat_of_namesCall names), closes_cons]
        rfl
      rw [tiled_cons, tiled_cons, Tile.text, Tile.text, List.append_assoc, List.append_assoc,
        List.cons_append, List.cons_append, opens names, opens names']

/-- Where no call starts in front of some tiles, none does in front of tiles like them. -/
theorem callMatcher_exchange {function : Function} {before before' : Option Char}
    (boundary : Text.isWord? before' = Text.isWord? before) {front : Text} (flat : Flat front)
    {last : Char} (ends : front.getLast? = some last) (laid : Mosaic (Text.isWord last) olds)
    (laid' : Mosaic (Text.isWord last) news)
    (quiet : callMatcher function.name before (front ++ tiled olds) = none) :
    callMatcher function.name before' (front ++ tiled news) = none := by
  -- Characters are read until a parenthesis or another tile comes, and either decides.
  induction like generalizing front last with
  | nil => rwa [callMatcher, boundary, ← callMatcher]
  | @cons _ _ olds news tile others ih =>
    cases tile with
    | plain c =>
      cases laid with | plain laid =>
      cases laid' with | plain laid' =>
      rw [tiled_cons, Tile.text] at quiet ⊢
      cases parenthesis : isParenthesis c with
      | false =>
        have longer : Flat (front ++ [c]) := by
          simpa [Flat, or_imp, forall_and, parenthesis] using flat
        rw [← List.append_assoc] at quiet ⊢
        exact ih longer List.getLast?_concat laid laid' quiet
      | true =>
        rw [List.singleton_append]
        refine callMatcher_quiet function.callName.apart flat parenthesis ?_
        intro outside names opens
        rw [Bool.eq_false_iff]
        intro closed
        rw [closes_tiled others laid laid'] at closed
        obtain ⟨inside, after, parts, flatInside⟩ := exists_of_closes closed
        have answered := callMatcher_call function.callName.apart (boundary.symm.trans outside) flat
          names flatInside after
        rw [List.singleton_append, parts, opens] at quiet
        simp [quiet] at answered
    | hex digits digits' =>
      have longer : Flat (front ++ ['#']) := by
        simpa [Flat, or_imp, forall_and, isParenthesis] using flat
      have silent := @callMatcher_of_nonword function before' _ longer '#' (by simp) (by decide)
        (digits' ++ tiled news)
      simpa [Tile.text] using silent
    | call function' function'' met inside met' inside' =>
      cases laid with | call word _ _ _ =>
      exact callMatcher_of_nonword flat (List.mem_of_getLast? ends) word _

end exchange

/-! ### Tiles that are settled -/

/-- No call starts at a character. -/
def Tile.Quiet (before : Option Char) (rest : Text) : Tile → Prop
  | .plain c => ∀ function : Function, callMatcher function.name before (c :: rest) = none
  | _ => True

/-- All calls of a text are laid out. -/
inductive Settled : Option Char → List Tile → Prop where
  | nil {before : Option Char} : Settled before []
  | cons {before : Option Char} {tile : Tile} {rest : List Tile} :
      tile.Quiet before (tiled rest) → Settled tile.text.getLast? rest →
        Settled before (tile :: rest)

theorem Tile.text_ne_nil (tile : Tile) : tile.text ≠ [] := by cases tile <;> simp [Tile.text]

theorem Tile.getLast?_or (tile : Tile) (before : Option Char) :
    tile.text.getLast?.or before = tile.text.getLast? :=
  Text.getLast?_or_of_ne_nil tile.text_ne_nil before

theorem getLast?_tiled_cons (tile : Tile) (rest : List Tile) (before : Option Char) :
    (tiled (tile :: rest)).getLast?.or before = (tiled rest).getLast?.or tile.text.getLast? := by
  rw [tiled_cons, List.getLast?_append, Option.or_assoc, Tile.getLast?_or]

theorem getLast?_call_text (function : Function) (met inside : Text) :
    (Tile.call function met inside).text.getLast? = some ')' := getLast?_call met inside

theorem isWord_getLast?_hex {digits : Text} (ink : digits ≠ [])
    (hexadecimal : ∀ c ∈ digits, isHexDigit c = true) :
    Text.isWord? (Tile.hex digits).text.getLast? = true := by
  have last : (Tile.hex digits).text.getLast? = some (digits.getLast ink) := by
    rw [Tile.text, List.getLast?_cons, List.getLast?_eq_some_getLast ink]
    rfl
  rw [last]
  exact isWord_of_isHexDigit (hexadecimal _ (List.getLast_mem ink))

/-- Exchanging literals settles nothing anew. -/
theorem Settled.exchange {olds news : List Tile} (like : List.Forall₂ Tile.Like olds news)
    {word : Bool} (laid : Mosaic word olds) (laid' : Mosaic word news)
    {before before' : Option Char} (boundary : Text.isWord? before' = Text.isWord? before)
    (settled : Settled before olds) : Settled before' news := by
  induction like generalizing word before before' with
  | nil => exact .nil
  | cons tile others ih =>
    obtain _ | ⟨quiet, settled⟩ := settled
    cases tile with
    | plain c =>
      cases laid with | plain laid =>
      cases laid' with | plain laid' =>
      refine .cons (fun function => ?_) (ih laid laid' rfl settled)
      cases parenthesis : isParenthesis c with
      | true => exact callMatcher_of_isParenthesis parenthesis _
      | false =>
        have flat : Flat [c] := by simpa [Flat] using parenthesis
        exact callMatcher_exchange others boundary flat rfl laid laid' (quiet function)
    | hex digits digits' =>
      cases laid with | hex ink digital laid =>
      cases laid' with | hex ink' digital' laid' =>
      refine .cons trivial (ih laid laid' ?_ settled)
      rw [isWord_getLast?_hex ink digital, isWord_getLast?_hex ink' digital']
    | call function function' met inside met' inside' =>
      cases laid with | call _ _ _ laid =>
      cases laid' with | call _ _ _ laid' =>
      refine .cons trivial (ih laid laid' ?_ settled)
      rw [getLast?_call_text, getLast?_call_text]

theorem endsInName_of_word {function : Function} {before : Option Char}
    (word : Text.isWord? before = true) {text : Text} (each : ∀ c ∈ text, Text.isWord c = true) :
    endsInName function.name before text = false := by
  induction text generalizing before with
  | nil => rfl
  | cons c rest ih =>
    rw [List.forall_mem_cons] at each
    rw [endsInName, word, @ih (some c) each.1 each.2]
    rfl

/-- A call of another function holds none of this one. -/
theorem fragments_other {function other : Function} (different : other ≠ function)
    {before : Option Char} {met inside : Text} (names : namesCall other.name met = true)
    (flat : Flat inside) (tail : Text) :
    Text.fragments (callMatcher function.name) before
        ((met ++ '(' :: (inside ++ [')'])) ++ tail)
      = (met ++ '(' :: (inside ++ [')'])).map .plain
        ++ Text.fragments (callMatcher function.name) (some ')') tail := by
  have foreign : endsInName function.name before met = false := by
    obtain ⟨c, rest, rfl, _⟩ := exists_head_of_namesCall names
    have word := isWord_of_namesCall names
    rw [List.forall_mem_cons] at word
    have unnamed : namesCall function.name (c :: rest) = false := by
      rw [Bool.eq_false_iff]
      exact fun same => different (namesCall_unique names same)
    rw [endsInName, unnamed, @endsInName_of_word function (some c) word.1 _ word.2, Bool.and_false]
    rfl
  have parts : (met ++ '(' :: (inside ++ [')'])) ++ tail
      = met ++ '(' :: (inside ++ ')' :: tail) := by simp
  rw [parts, fragments_quiet function.callName.apart function.callName.ink (flat_of_namesCall names)
      (by decide) (fun ends => by rw [foreign] at ends; cases ends),
    fragments_quiet function.callName.apart function.callName.ink flat (by decide)
      (fun _ closing => absurd closing (by decide))]
  simp

/-- A search for the calls of a function finds those tiles and nothing else. -/
theorem fragments_tiled (function : Function) {word : Bool} {tiles : List Tile}
    (laid : Mosaic word tiles) {before : Option Char} (boundary : Text.isWord? before = word)
    (settled : Settled before tiles) :
    Text.fragments (callMatcher function.name) before (tiled tiles)
      = tiles.flatMap (Tile.read (.call function)) := by
  induction laid generalizing before with
  | nil => rw [tiled_nil, Text.fragments]; rfl
  | @plain _ c rest _ ih =>
    obtain _ | ⟨quiet, settled⟩ := settled
    have read := @ih (some c) rfl settled
    rw [tiled_cons, Tile.text, List.singleton_append, Text.fragments]
    simp only [quiet function, read]
    rfl
  | @hex _ digits rest ink digital _ ih =>
    obtain _ | ⟨_, settled⟩ := settled
    have read := ih (isWord_getLast?_hex ink digital) settled
    rw [tiled_cons, Text.fragments_append_of_silent, Tile.getLast?_or, read]
    · rfl
    · refine Text.silent_of_forall (List.forall_mem_cons.mpr ⟨fun before rest => ?_, ?_⟩) _ _
      · have flat : Flat ['#'] := by simp [Flat, isParenthesis]
        exact callMatcher_of_nonword flat (List.mem_singleton_self _) (by decide) rest
      · exact fun c member before rest => callMatcher_of_isHexDigit (digital c member) rest
  | @call _ other met inside rest outside names flat _ ih =>
    -- A call of this function is one hit, a call of the other holds none.
    obtain _ | ⟨_, settled⟩ := settled
    rw [getLast?_call_text] at settled
    have read := ih rfl settled
    rw [tiled_cons, Tile.text, List.flatMap_cons, Tile.read, ← read]
    dsimp only [Tile.literal?]
    split
    next same =>
      obtain rfl := Kind.call.inj same
      have found := callMatcher_call other.callName.apart (boundary.trans outside)
        (flat_of_namesCall names) names flat (tiled rest)
      rw [Text.fragments_of_hit (by simp) found, getLast?_call]
      rfl
    next different =>
      exact fragments_other (fun same => different (by rw [same])) names flat (tiled rest)

end ThemeCss.Dark
