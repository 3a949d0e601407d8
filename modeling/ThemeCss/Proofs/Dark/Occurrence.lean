import ThemeCss.Proofs.Dark.Found

/-!
# Where literals stand

A literal stands wherever one is found with all of the text in view. In a stretch that something
else follows, those that end in the stretch are the ones that a search of the stretch alone finds,
when what follows does not go on with a word and no hexadecimal literal stands in a call.
-/
namespace ThemeCss.Text

variable {α : Type} {matcher : Matcher α}

/-- Every place of a stretch at which the matcher answers, with what it covers there. The places are
counted from `start`, and `after` follows the stretch. -/
def occurrences (matcher : Matcher α) (before : Option Char) (start : Nat) (after : Text) :
    Text → List (Nat × α × Text)
  | [] => []
  | c :: rest =>
    let here := (matcher before (c :: (rest ++ after))).map fun (value, size) =>
      (start, value, (c :: (rest ++ after)).take size)
    here.toList ++ occurrences matcher (some c) (start + 1) after rest

theorem occurrences_append (before : Option Char) (start : Nat) (first second after : Text) :
    occurrences matcher before start after (first ++ second)
      = occurrences matcher before start (second ++ after) first
        ++ occurrences matcher (first.getLast?.or before) (start + first.length) after second := by
  induction first generalizing before start with
  | nil => rfl
  | cons c rest ih =>
    rw [List.cons_append, occurrences, occurrences, ih, getLast?_cons_or, List.length_cons,
      List.append_assoc, List.append_assoc, Nat.add_assoc, Nat.add_comm 1]

theorem occurrences_of_silent {before : Option Char} {stretch after : Text}
    (silent : Silent matcher before stretch after) (start : Nat) :
    occurrences matcher before start after stretch = [] := by
  induction stretch generalizing before start with
  | nil => rfl
  | cons c rest ih =>
    obtain ⟨here, later⟩ := silent_cons_iff.mp silent
    rw [occurrences, here, ih later]
    rfl

theorem occurrences_of_hit {before : Option Char} {c : Char} {tail after : Text} {value : α}
    (found : matcher before (c :: tail ++ after) = some (value, (c :: tail).length))
    (start : Nat) :
    occurrences matcher before start after (c :: tail)
      = (start, value, c :: tail) :: occurrences matcher (some c) (start + 1) after tail := by
  have covers : (c :: tail ++ after).take (c :: tail).length = c :: tail := List.take_left
  rw [List.cons_append] at found covers
  simp only [occurrences, found, Option.map_some, covers, Option.toList_some,
    List.singleton_append]

theorem exists_of_mem_occurrences {before : Option Char} {start place : Nat} {after text : Text}
    {value : α} {covered : Text}
    (listed : (place, value, covered) ∈ occurrences matcher before start after text) :
    ∃ front back size, text = front ++ back ∧ back ≠ [] ∧ place = start + front.length ∧
      matcher (front.getLast?.or before) (back ++ after) = some (value, size) ∧
      covered = (back ++ after).take size := by
  induction text generalizing before start with
  | nil => cases listed
  | cons c rest ih =>
    have later (listed : (place, value, covered) ∈
          occurrences matcher (some c) (start + 1) after rest) :
        ∃ front back size, c :: rest = front ++ back ∧ back ≠ [] ∧ place = start + front.length ∧
          matcher (front.getLast?.or before) (back ++ after) = some (value, size) ∧
          covered = (back ++ after).take size := by
      obtain ⟨front, back, size, rfl, ink, rfl, found, covers⟩ := ih listed
      refine ⟨c :: front, back, size, rfl, ink, by simp only [List.length_cons]; omega, ?_, covers⟩
      rwa [getLast?_cons_or]
    rcases List.mem_append.mp listed with here | listed
    · obtain ⟨⟨first, size⟩, found, same⟩ := Option.map_eq_some_iff.mp (Option.mem_toList.mp here)
      simp only [Prod.mk.injEq] at same
      obtain ⟨rfl, rfl, rfl⟩ := same
      exact ⟨[], c :: rest, size, rfl, by simp, rfl, found, rfl⟩
    · exact later listed

end ThemeCss.Text

namespace ThemeCss.Dark

open Colour

/-- What a literal covers, and that it is as long as the search says. -/
theorem covered_of_literalMatcher {before : Option Char} {text : Text} {literal : Literal}
    {size : Nat} (found : literalMatcher before text = some (literal, size)) :
    1 ≤ size ∧ (text.take size).length = size := by
  obtain ⟨tile, after, rfl, _, rfl, _⟩ := exists_tile found
  exact ⟨List.length_pos_iff.mpr tile.text_ne_nil, by rw [List.take_left]⟩

theorem Found.congr {before before' : Option Char} {tiles : List Tile} (found : Found before tiles)
    (boundary : Text.isWord? before' = Text.isWord? before) : Found before' tiles := by
  cases found with
  | nil => exact .nil
  | plain misses rest => exact .plain (by rwa [literalMatcher_congr boundary]) rest
  | literal named answered rest =>
    exact .literal named (by rwa [literalMatcher_congr boundary]) rest

/-- Whether a hit ends in front of a place. -/
def fits (stop : Nat) (hit : Nat × Literal × Text) : Bool := hit.1 + hit.2.2.length ≤ stop

/-- What follows a literal further on does not matter, unless it goes on with a word. -/
theorem literalMatcher_append {before : Option Char} {front after : Text} {literal : Literal}
    (found : literalMatcher before (front ++ after) = some (literal, front.length)) {more : Text}
    (edge : after = [] → Text.isWord? front.getLast? = true → Text.isWord? more.head? = false) :
    literalMatcher before (front ++ (after ++ more)) = some (literal, front.length) :=
  literalMatcher_of_matcher (Kind.matcher_append (matcher_of_literalMatcher found) edge)

/-- No literal ends in a stretch that is found there with more in view only. -/
theorem length_lt_of_literalMatcher {before : Option Char} {front after : Text} {literal : Literal}
    {size : Nat} (alone : literalMatcher before front = none)
    (found : literalMatcher before (front ++ after) = some (literal, size)) :
    front.length < size := by
  by_contra! room
  have answered := Kind.matcher_front (matcher_of_literalMatcher found) room
  rw [literalMatcher_eq_none_iff.mp alone literal.kind] at answered
  cases answered

theorem hexless_of_literal {tile : Tile} {literal : Literal} (named : tile.literal? = some literal)
    (hexless : literal.kind ≠ .hex → Text.holdsMatch hexMatcher tile.text = false) :
    tile.Hexless := by
  cases tile with
  | plain => trivial
  | hex => trivial
  | call =>
    obtain rfl := Option.some.inj named
    exact hexless (by simp)

/-- A literal that is found at a character only with more in view does not end there. -/
theorem filter_occurrences_missed {before : Option Char} {c : Char} {rest : Text}
    (misses : literalMatcher before (c :: rest) = none) {start stop : Nat}
    (ends : stop = start + (c :: rest).length) (after : Text) :
    (Text.occurrences literalMatcher before start (rest ++ after) [c]).filter (fits stop) = [] := by
  refine List.filter_eq_nil_iff.mpr ?_
  rintro ⟨place, literal, covered⟩ listed
  obtain ⟨front, back, size, parts, ink, rfl, answered, rfl⟩ :=
    Text.exists_of_mem_occurrences listed
  obtain ⟨rfl, rfl⟩ := (List.append_eq_singleton_iff.mp parts.symm).resolve_right
    fun other => ink other.2
  rw [← List.append_assoc] at answered ⊢
  have beyond := length_lt_of_literalMatcher misses answered
  simp only [fits, (covered_of_literalMatcher answered).2, ends, List.length_cons,
    List.length_nil, decide_eq_true_eq] at beyond ⊢
  omega

/-- In tiles that something follows, the literals that end among them are the tiles. -/
theorem filter_occurrences_tiled {before : Option Char} {tiles : List Tile}
    (found : Found before tiles) (sound : ∀ tile ∈ tiles, tile.Sound) {start stop : Nat}
    (ends : stop = start + (tiled tiles).length) {after : Text}
    (edge : Text.isWord? ((tiled tiles).getLast?.or before) = true →
      Text.isWord? after.head? = false)
    (hexless : ∀ hit ∈ (Text.occurrences literalMatcher before start after (tiled tiles)).filter
      (fits stop), hit.2.1.kind ≠ .hex → Text.holdsMatch hexMatcher hit.2.2 = false) :
    (Text.occurrences literalMatcher before start after (tiled tiles)).filter (fits stop)
        = Text.placedHits start (tiles.map Tile.fragment) ∧
      ∀ tile ∈ tiles, tile.Hexless := by
  induction found generalizing start with
  | nil => exact ⟨rfl, by simp⟩
  | @plain before c rest misses _ ih =>
    rw [List.forall_mem_cons] at sound ⊢
    rw [getLast?_tiled_cons] at edge
    rw [tiled_cons, Tile.text, List.singleton_append] at ends
    have none := filter_occurrences_missed misses ends after
    rw [tiled_cons, Tile.text, Text.occurrences_append, List.filter_append, none] at hexless ⊢
    have further : stop = start + [c].length + (tiled rest).length := by
      rw [ends, List.length_cons, List.length_singleton, Nat.add_assoc, Nat.add_comm 1]
    obtain ⟨listed, others⟩ := ih sound.2 further edge hexless
    exact ⟨listed, trivial, others⟩
  | @literal before tile literal rest named answered _ ih =>
    rw [List.forall_mem_cons] at sound ⊢
    rw [getLast?_tiled_cons] at edge
    obtain ⟨c, tail, text⟩ := List.exists_cons_of_ne_nil tile.text_ne_nil
    have here : literalMatcher before (tile.text ++ (tiled rest ++ after))
        = some (literal, tile.text.length) := by
      refine literalMatcher_append answered fun none => ?_
      rw [none] at edge
      exact edge
    -- The tile is found at its first character, and nothing is found behind that one.
    have head : Text.occurrences literalMatcher before start (tiled rest ++ after) tile.text
        = (start, literal, tile.text) ::
          Text.occurrences literalMatcher (some c) (start + 1) (tiled rest ++ after) tail := by
      rw [text] at here ⊢
      exact Text.occurrences_of_hit here start
    have fit : fits stop (start, literal, tile.text) = true := by
      simp only [fits, ends, tiled_cons, List.length_append, decide_eq_true_eq]
      omega
    rw [tiled_cons, Text.occurrences_append, List.filter_append, head,
      List.filter_cons_of_pos fit] at hexless ⊢
    have hexlessTile := hexless_of_literal named (hexless _ (List.mem_cons_self ..))
    have silent := silent_inside named sound.1 hexlessTile text (tiled rest ++ after)
    rw [Text.occurrences_of_silent silent, Tile.getLast?_or] at hexless ⊢
    obtain ⟨listed, others⟩ := ih sound.2 (by rw [ends, tiled_cons]; simp; omega) edge
      fun hit member => hexless hit (List.mem_cons_of_mem _ member)
    rw [listed, List.map_cons, Tile.fragment_eq named]
    exact ⟨rfl, hexlessTile, others⟩

end ThemeCss.Dark
