import ThemeCss.Proofs.Dark.Tile

/-!
# Literals that are found

One search finds the literals of all kinds, since no place starts two of them, and it lays a text
out in tiles. What it finds in the front of a text it finds in the front alone, and the other way
round where the next character does not go on with a word. Inside a literal nothing is found, unless
it is a call that holds a hexadecimal literal.
-/
namespace ThemeCss.Text

variable {α : Type} {matcher : Matcher α}

/-- What a hit answers and covers. -/
def Fragment.hit? : Fragment α → Option (α × Text)
  | .plain _ => none
  | .hit value covered => some (value, covered)

theorem map_snd_placedHits (start : Nat) (parts : List (Fragment α)) :
    (placedHits start parts).map (·.2) = parts.filterMap Fragment.hit? := by
  induction parts generalizing start with
  | nil => rfl
  | cons part rest ih =>
    cases part with
    | plain c => exact ih (start + 1)
    | hit value covered =>
      rw [placedHits, List.map_cons, ih]
      rfl

theorem filterMap_hit?_map_plain (text : Text) :
    (text.map Fragment.plain).filterMap (Fragment.hit? (α := α)) = [] := by
  simp [List.filterMap_map, Function.comp_def, Fragment.hit?]

/-- A matcher without a hit answers nowhere. -/
theorem silent_of_not_holdsMatch {text : Text} (without : holdsMatch matcher text = false) :
    Silent matcher none text [] := by
  have silent (before : Option Char) (text : Text)
      (hitless : (fragments matcher before text).filterMap Fragment.hit? = []) :
      Silent matcher before text [] := by
    fun_induction fragments matcher before text with
    | case1 before => exact silent_nil before []
    | case2 before c rest misses ih =>
      exact silent_cons_iff.mpr ⟨by rwa [List.append_nil], ih hitless⟩
    | case3 => simp [Fragment.hit?] at hitless
  have none : hits matcher text = [] := by simpa [holdsMatch] using without
  have hitless := map_snd_placedHits 0 (fragments matcher .none text)
  rw [← hits, none] at hitless
  exact silent .none text hitless.symm

end ThemeCss.Text

namespace ThemeCss.Dark

open Colour Theme

/-! ### Hexadecimal literals -/

theorem hexMatcher_eq_some_iff {before : Option Char} {text digits : Text} {size : Nat} :
    hexMatcher before text = some (digits, size) ↔
      ∃ after, text = '#' :: (digits ++ after) ∧ (∀ c ∈ digits, isHexDigit c = true) ∧
        digits.length ∈ [3, 4, 6, 8] ∧ Text.isWord? after.head? = false ∧
        size = digits.length + 1 := by
  constructor
  · intro found
    unfold hexMatcher at found
    split at found
    next rest =>
      dsimp only at found
      split at found
      next long =>
        obtain ⟨rfl, rfl⟩ := Prod.mk.inj (Option.some.inj found)
        refine ⟨rest.dropWhile isHexDigit, by rw [List.takeWhile_append_dropWhile],
          fun c member => List.all_eq_true.mp List.all_takeWhile c member, long.1,
          by simpa using long.2, rfl⟩
      next => cases found
    next => cases found
  · rintro ⟨after, rfl, digital, long, outside, rfl⟩
    -- A digit is part of a word, so none follows.
    have stops : after.takeWhile isHexDigit = [] ∧ after.dropWhile isHexDigit = after := by
      cases after with
      | nil => exact ⟨rfl, rfl⟩
      | cons c rest =>
        have other : isHexDigit c = false := by
          rw [Bool.eq_false_iff]
          intro digit
          rw [List.head?_cons, Text.isWord?, isWord_of_isHexDigit digit] at outside
          cases outside
        simp [other]
    unfold hexMatcher
    simp only [List.takeWhile_append_of_pos digital, List.dropWhile_append_of_pos digital, stops,
      List.append_nil, outside]
    simp [long]

/-- What is found in the front of a text is found in the front alone. -/
theorem hexMatcher_front {before before' : Option Char} {front after digits : Text} {size : Nat}
    (found : hexMatcher before (front ++ after) = some (digits, size))
    (room : size ≤ front.length) : hexMatcher before' front = some (digits, size) := by
  obtain ⟨behind, parts, digital, long, outside, rfl⟩ := hexMatcher_eq_some_iff.mp found
  rw [← List.cons_append] at parts
  rcases List.append_eq_append_iff.mp parts with ⟨gap, whole, _⟩ | ⟨gap, rfl, rfl⟩
  · have none : gap = [] := by
      rw [← List.length_eq_zero_iff]
      have sizes := congrArg List.length whole
      simp only [List.length_cons, List.length_append] at sizes
      omega
    subst none
    rw [List.append_nil] at whole
    exact hexMatcher_eq_some_iff.mpr ⟨[], by simp [← whole], digital, long, rfl, rfl⟩
  · refine hexMatcher_eq_some_iff.mpr ⟨gap, rfl, digital, long, ?_, rfl⟩
    cases gap with
    | nil => rfl
    | cons c rest => exact outside

/-- A call that is found in the front of a text is found in the front alone. -/
theorem callMatcher_front {function : Function} {before : Option Char} {front after body : Text}
    {size : Nat} (found : callMatcher function.name before (front ++ after) = some (body, size))
    (room : size ≤ front.length) : callMatcher function.name before front = some (body, size) := by
  obtain ⟨outside, met, inside, behind, parts, flat, names, flatInside, rfl, rfl⟩ :=
    (callMatcher_eq_some_iff function.callName).mp found
  obtain ⟨gap, rfl⟩ : met ++ '(' :: (inside ++ [')']) <+: front :=
    List.prefix_of_prefix_length_le ⟨behind, parts.symm⟩ (List.prefix_append front after) room
  exact (callMatcher_eq_some_iff function.callName).mpr
    ⟨outside, met, inside, gap, rfl, flat, names, flatInside, rfl, rfl⟩

namespace Kind

variable {kind : Kind} {before : Option Char} {front after body : Text} {size : Nat}

theorem matcher_congr {before' : Option Char}
    (boundary : Text.isWord? before' = Text.isWord? before) (text : Text) :
    kind.matcher before' text = kind.matcher before text := by
  cases kind with
  | hex =>
    simp only [matcher, hexMatcher]
    split <;> rfl
  | call function => simp only [matcher, callMatcher, boundary]

theorem matcher_front (found : kind.matcher before (front ++ after) = some (body, size))
    (room : size ≤ front.length) : kind.matcher before front = some (body, size) := by
  cases kind with
  | hex => exact hexMatcher_front found room
  | call function => exact callMatcher_front found room

/-- What follows a literal further on does not matter, unless it goes on with a word. -/
theorem matcher_append (found : kind.matcher before (front ++ after) = some (body, front.length))
    {more : Text} (edge : after = [] → Text.isWord? front.getLast? = true →
      Text.isWord? more.head? = false) :
    kind.matcher before (front ++ (after ++ more)) = some (body, front.length) := by
  cases kind with
  | hex =>
    obtain ⟨behind, parts, digital, long, outside, size⟩ := hexMatcher_eq_some_iff.mp found
    rw [← List.cons_append] at parts
    obtain ⟨rfl, rfl⟩ := List.append_inj parts (by simpa using size)
    have ink : body ≠ [] := by
      rintro rfl
      simp at long
    refine (@hexMatcher_eq_some_iff before _ _ _).mpr
      ⟨after ++ more, rfl, digital, long, ?_, size⟩
    cases after with
    | nil => exact edge rfl (isWord_getLast?_hex ink digital)
    | cons => exact outside
  | call function =>
    obtain ⟨outside, met, inside, behind, parts, flat, names, flatInside, same, size⟩ :=
      (callMatcher_eq_some_iff function.callName).mp found
    obtain ⟨rfl, rfl⟩ := List.append_inj parts size
    exact (callMatcher_eq_some_iff function.callName).mpr
      ⟨outside, met, inside, after ++ more, rfl, flat, names, flatInside, same, rfl⟩

/-- No place starts literals of two kinds. -/
theorem matcher_unique {kind' : Kind} {text body' : Text} {size' : Nat}
    (found : kind.matcher before text = some (body, size))
    (found' : kind'.matcher before text = some (body', size')) : kind = kind' := by
  have apart {function : Function} {digits body : Text} {size size' : Nat}
      (hexed : hexMatcher before text = some (digits, size))
      (called : callMatcher function.name before text = some (body, size')) : False := by
    obtain ⟨_, parts, _⟩ := hexMatcher_eq_some_iff.mp hexed
    obtain ⟨_, met, _, _, whole, _, names, _⟩ :=
      (callMatcher_eq_some_iff function.callName).mp called
    obtain ⟨c, rest, rfl, _⟩ := exists_head_of_namesCall names
    rw [parts] at whole
    obtain ⟨rfl, _⟩ := List.cons.inj whole
    rw [namesCall_of_sign function.callName.sign (List.mem_cons_self ..)] at names
    cases names
  cases kind with
  | hex =>
    cases kind' with
    | hex => rfl
    | call => exact (apart found found').elim
  | call function =>
    cases kind' with
    | hex => exact (apart found' found).elim
    | call other =>
      obtain ⟨_, met, inside, after, parts, flat, names, _⟩ :=
        (callMatcher_eq_some_iff function.callName).mp found
      obtain ⟨_, met', inside', after', parts', flat', names', _⟩ :=
        (callMatcher_eq_some_iff other.callName).mp found'
      -- Either name is what stands in front of the first parenthesis.
      have first {met : Text} (flat : Flat met) (tail : Text) :
          (met ++ '(' :: tail).takeWhile (!isParenthesis ·) = met :=
        Text.takeWhile_stop (fun c member => by simp [flat c member]) (by decide) tail
      have same : met = met' := by
        rw [← first flat (inside ++ [')'] ++ after), ← first flat' (inside' ++ [')'] ++ after')]
        congr 1
        simpa using parts.symm.trans parts'
      rw [← same] at names'
      rw [namesCall_unique names names']

end Kind

/-! ### The literals of a text -/

/-- Finds the literals of all kinds. -/
def literalMatcher : Text.Matcher Literal := fun before text =>
  [Kind.hex, .call .rgb, .call .hsl].findSome? fun kind =>
    (kind.matcher before text).map fun (body, size) => (⟨kind, body⟩, size)

theorem literalMatcher_eq_none_iff {before : Option Char} {text : Text} :
    literalMatcher before text = none ↔ ∀ kind : Kind, kind.matcher before text = none := by
  simp only [literalMatcher, List.findSome?_eq_none_iff, Option.map_eq_none_iff]
  constructor
  · rintro each (_ | _ | _)
    · exact each .hex (by decide)
    · exact each (.call .rgb) (by decide)
    · exact each (.call .hsl) (by decide)
  · exact fun each kind _ => each kind

theorem matcher_of_literalMatcher {before : Option Char} {text : Text} {literal : Literal}
    {size : Nat} (found : literalMatcher before text = some (literal, size)) :
    literal.kind.matcher before text = some (literal.body, size) := by
  obtain ⟨kind, _, answer⟩ := List.exists_of_findSome?_eq_some found
  obtain ⟨⟨body, size⟩, answered, same⟩ := Option.map_eq_some_iff.mp answer
  obtain ⟨rfl, rfl⟩ := Prod.mk.inj same
  exact answered

theorem literalMatcher_of_matcher {kind : Kind} {before : Option Char} {text body : Text}
    {size : Nat} (found : kind.matcher before text = some (body, size)) :
    literalMatcher before text = some (⟨kind, body⟩, size) := by
  cases answered : literalMatcher before text with
  | none =>
    rw [literalMatcher_eq_none_iff.mp answered kind] at found
    cases found
  | some hit =>
    obtain ⟨⟨other, _⟩, _⟩ := hit
    have found' := matcher_of_literalMatcher answered
    obtain rfl := Kind.matcher_unique found found'
    obtain ⟨rfl, rfl⟩ := Prod.mk.inj (Option.some.inj (found.symm.trans found'))
    rfl

theorem literalMatcher_congr {before before' : Option Char}
    (boundary : Text.isWord? before' = Text.isWord? before) (text : Text) :
    literalMatcher before' text = literalMatcher before text := by
  simp only [literalMatcher, Kind.matcher_congr boundary]

/-! ### The tiles of a text -/

/-- What a search for all literals makes of a tile. -/
def Tile.fragment (tile : Tile) : Text.Fragment Literal :=
  match tile with
  | .plain c => .plain c
  | .hex digits => .hit ⟨.hex, digits⟩ ('#' :: digits)
  | .call function met inside =>
    .hit ⟨.call function, Text.trimLeft inside⟩ (met ++ '(' :: (inside ++ [')']))

theorem Tile.fragment_eq {tile : Tile} {literal : Literal} (named : tile.literal? = some literal) :
    tile.fragment = .hit literal tile.text := by
  cases tile with
  | plain => cases named
  | hex => exact congrArg (Text.Fragment.hit · _) (Option.some.inj named)
  | call => exact congrArg (Text.Fragment.hit · _) (Option.some.inj named)

/-- Where a literal is found, a tile can be laid. -/
theorem exists_tile {before : Option Char} {text : Text} {literal : Literal} {size : Nat}
    (found : literalMatcher before text = some (literal, size)) :
    ∃ tile after, text = tile.text ++ after ∧ tile.literal? = some literal ∧
      size = tile.text.length ∧ ∀ rest, Mosaic (Text.isWord? tile.text.getLast?) rest →
        Mosaic (Text.isWord? before) (tile :: rest) := by
  obtain ⟨_ | function, body⟩ := literal
  · have answered : hexMatcher before text = some (body, size) := matcher_of_literalMatcher found
    obtain ⟨after, rfl, digital, long, _, rfl⟩ := hexMatcher_eq_some_iff.mp answered
    have ink : body ≠ [] := by
      rintro rfl
      simp at long
    refine ⟨.hex body, after, rfl, rfl, rfl, fun rest laid => .hex ink digital ?_⟩
    rwa [isWord_getLast?_hex ink digital] at laid
  · have answered : callMatcher function.name before text = some (body, size) :=
      matcher_of_literalMatcher found
    obtain ⟨outside, met, inside, after, rfl, _, names, flat, rfl, rfl⟩ :=
      (callMatcher_eq_some_iff function.callName).mp answered
    refine ⟨.call function met inside, after, rfl, rfl, rfl, fun rest laid =>
      .call outside names flat ?_⟩
    rwa [getLast?_call_text] at laid

/-- Tiles as a search for all literals finds them. -/
inductive Found : Option Char → List Tile → Prop where
  | nil {before : Option Char} : Found before []
  | plain {before : Option Char} {c : Char} {rest : List Tile} :
      literalMatcher before (c :: tiled rest) = none → Found (some c) rest →
        Found before (.plain c :: rest)
  | literal {before : Option Char} {tile : Tile} {literal : Literal} {rest : List Tile} :
      tile.literal? = some literal →
        literalMatcher before (tile.text ++ tiled rest) = some (literal, tile.text.length) →
          Found tile.text.getLast? rest → Found before (tile :: rest)

/-- A text is laid out in the tiles that a search for all literals finds. -/
theorem exists_tiles (before : Option Char) (text : Text) :
    ∃ tiles, tiled tiles = text ∧ Mosaic (Text.isWord? before) tiles ∧ Found before tiles := by
  -- By the length of the text, for a literal takes several characters of it at once.
  induction size : text.length using Nat.strongRecOn generalizing before text with
  | ind size ih =>
    subst size
    cases text with
    | nil => exact ⟨[], rfl, .nil, .nil⟩
    | cons c rest =>
      cases found : literalMatcher before (c :: rest) with
      | none =>
        obtain ⟨tiles, rfl, laid, tail⟩ := ih rest.length (by simp) (some c) rest rfl
        exact ⟨.plain c :: tiles, rfl, .plain laid, .plain found tail⟩
      | some hit =>
        obtain ⟨literal, size⟩ := hit
        obtain ⟨tile, after, parts, named, rfl, lay⟩ := exists_tile found
        have room := List.length_pos_iff.mpr tile.text_ne_nil
        have short : after.length < (c :: rest).length := by
          rw [parts, List.length_append]
          omega
        obtain ⟨tiles, rfl, laid, tail⟩ := ih _ short tile.text.getLast? after rfl
        rw [parts] at found ⊢
        exact ⟨tile :: tiles, rfl, lay tiles laid, .literal named found tail⟩

/-- No hexadecimal literal stands in a call. -/
def Tile.Hexless : Tile → Prop
  | .call function met inside =>
    Text.holdsMatch hexMatcher (Tile.call function met inside).text = false
  | _ => True

theorem silent_hexless (before : Option Char) {function : Function} {met inside : Text}
    (hexless : (Tile.call function met inside).Hexless) (after : Text) :
    Text.Silent hexMatcher before (Tile.call function met inside).text after := by
  intro front back parts ink
  have silent := Text.silent_of_not_holdsMatch hexless front back parts ink
  rw [List.append_nil] at silent
  rw [Option.eq_none_iff_forall_not_mem]
  rintro ⟨digits, size⟩ found
  -- A literal ends in front of the parenthesis that closes the call.
  have room : size ≤ back.length := by
    obtain ⟨behind, whole, digital, _, _, rfl⟩ := hexMatcher_eq_some_iff.mp found
    by_contra! short
    have start : back <+: '#' :: digits :=
      List.prefix_of_prefix_length_le ⟨after, whole⟩ ⟨behind, rfl⟩ (by simpa using short.le)
    have ends : ')' ∈ back := by
      have last : back.getLast? = some ')' := by
        rw [← getLast?_call_text function met inside, parts, List.getLast?_append_of_ne_nil _ ink]
      exact List.mem_of_getLast? last
    rcases List.mem_cons.mp (start.subset ends) with same | listed
    · cases same
    · exact absurd (digital _ listed) (by decide)
  rw [hexMatcher_front found room] at silent
  cases silent

theorem silent_literalMatcher {before : Option Char} {stretch after : Text}
    (each : ∀ kind : Kind, Text.Silent kind.matcher before stretch after) :
    Text.Silent literalMatcher before stretch after := fun front back parts ink =>
  literalMatcher_eq_none_iff.mpr fun kind => each kind front back parts ink

theorem hexMatcher_of_ne {before : Option Char} {c : Char} (other : c ≠ '#') (rest : Text) :
    hexMatcher before (c :: rest) = none := by
  unfold hexMatcher
  split
  next same => exact absurd (List.cons.inj same).1 other
  next => rfl

/-- No call starts inside one: its name is one word, and it holds no parenthesis. -/
theorem silent_call {function : Function} {c : Char} {more inside : Text}
    (word : ∀ d ∈ c :: more, Text.isWord d = true) (flat : Flat inside) (after : Text) :
    Text.Silent (callMatcher function.name) (some c) (more ++ '(' :: (inside ++ [')'])) after := by
  have named (before : Option Char) (boundary : Text.isWord? before = true) (text after : Text)
      (word : ∀ d ∈ text, Text.isWord d = true) :
      Text.Silent (callMatcher function.name) before text after := by
    induction text generalizing before with
    | nil => exact Text.silent_nil before after
    | cons d rest ih =>
      rw [List.forall_mem_cons] at word
      exact Text.silent_cons_iff.mpr
        ⟨callMatcher_of_word boundary _, ih (some d) word.1 word.2⟩
  rw [List.forall_mem_cons] at word
  refine Text.silent_append_iff.mpr ⟨named (some c) word.1 more _ word.2, ?_⟩
  refine Text.silent_cons_iff.mpr ⟨callMatcher_of_isParenthesis rfl _, ?_⟩
  refine Text.silent_append_iff.mpr ⟨fun front back parts ink => ?_, Text.silent_cons_iff.mpr
    ⟨callMatcher_of_isParenthesis rfl _, Text.silent_nil _ _⟩⟩
  have flatBack : Flat back := fun d member => flat d (by rw [parts]; simp [member])
  have closing : isParenthesis ')' = true := rfl
  exact callMatcher_quiet function.callName.apart flatBack closing
    fun _ _ opens => absurd opens (by decide)

/-- Inside a literal none is found. -/
theorem silent_inside {tile : Tile} {literal : Literal} (named : tile.literal? = some literal)
    (sound : tile.Sound) (hexless : tile.Hexless) {c : Char} {tail : Text}
    (text : tile.text = c :: tail) (after : Text) :
    Text.Silent literalMatcher (some c) tail after := by
  refine silent_literalMatcher fun kind => ?_
  cases tile with
  | plain => cases named
  | hex digits =>
    obtain ⟨rfl, rfl⟩ := List.cons.inj text
    refine Text.silent_of_forall (fun d member before rest => ?_) _ _
    cases kind with
    | hex =>
      refine hexMatcher_of_ne ?_ rest
      rintro rfl
      exact absurd (sound.2 _ member) (by decide)
    | call function => exact callMatcher_of_isHexDigit (sound.2 d member) rest
  | call function met inside =>
    cases kind with
    | hex =>
      have silent := silent_hexless none hexless after
      rw [text] at silent
      exact (Text.silent_cons_iff.mp silent).2
    | call other =>
      obtain ⟨d, more, rfl, _⟩ := exists_head_of_namesCall sound.1
      obtain ⟨rfl, rfl⟩ := List.cons.inj text
      exact silent_call (isWord_of_namesCall sound.1) sound.2 after

namespace Found

variable {before : Option Char} {tiles : List Tile} (found : Found before tiles)
include found

theorem fragments_eq :
    Text.fragments literalMatcher before (tiled tiles) = tiles.map Tile.fragment := by
  induction found with
  | nil => rw [tiled_nil, Text.fragments]; rfl
  | @plain before c rest misses _ ih =>
    rw [tiled_cons, Tile.text, List.singleton_append, Text.fragments]
    simp only [misses, ih]
    rfl
  | @literal before tile literal rest named answered _ ih =>
    rw [tiled_cons, Text.fragments_of_hit tile.text_ne_nil answered, ih, List.map_cons,
      Tile.fragment_eq named]

theorem settled : Settled before tiles := by
  induction found with
  | nil => exact .nil
  | plain misses _ ih =>
    exact .cons (fun function => literalMatcher_eq_none_iff.mp misses (.call function)) ih
  | @literal _ tile _ _ named _ _ ih =>
    refine .cons ?_ ih
    cases tile with
    | plain => cases named
    | hex => trivial
    | call => trivial

/-- When no hexadecimal literal stands in a call, a search for them finds those tiles. -/
theorem fragments_hex (hexless : ∀ tile ∈ tiles, tile.Hexless) :
    Text.fragments hexMatcher before (tiled tiles) = tiles.flatMap (Tile.read .hex) := by
  induction found with
  | nil => rw [tiled_nil, Text.fragments]; rfl
  | @plain before c rest misses _ ih =>
    have here : hexMatcher before (c :: tiled rest) = none :=
      literalMatcher_eq_none_iff.mp misses .hex
    rw [tiled_cons, Tile.text, List.singleton_append, Text.fragments]
    simp only [here, ih fun tile listed => hexless tile (List.mem_cons_of_mem _ listed)]
    rfl
  | @literal before tile literal rest named answered _ ih =>
    rw [List.forall_mem_cons] at hexless
    have later := ih hexless.2
    cases tile with
    | plain => cases named
    | hex digits =>
      obtain rfl := Option.some.inj named
      have here : hexMatcher before ((Tile.hex digits).text ++ tiled rest)
          = some (digits, (Tile.hex digits).text.length) := matcher_of_literalMatcher answered
      rw [tiled_cons, Text.fragments_of_hit (Tile.text_ne_nil _) here, later]
      rfl
    | call function met inside =>
      rw [tiled_cons, Text.fragments_append_of_silent _ (silent_hexless before hexless.1 _),
        Tile.getLast?_or, later]
      rfl

end Found

end ThemeCss.Dark
