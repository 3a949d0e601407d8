import ThemeCss.Proofs.Dark.Found
import ThemeCss.Proofs.Text.Attempt

/-!
# Three passes at once

When no hexadecimal literal stands in a call, each of the three passes meets its own literals as
they were at first, whatever the passes before it have written, and leaves all other tiles. So they
come to one replacement of all literals at once.
-/
namespace ThemeCss.Dark

open Colour Theme

/-! ### Passes over tiles -/

def Tile.kind? (tile : Tile) : Option Kind := tile.literal?.map (·.kind)

/-- What is written for a literal; one that cannot be read stays. -/
def Kind.convert (tuning : Tuning Float) (role : Role) :
    Kind → Text → Text → Except ColourError Text
  | hex => convertHexLiteral tuning role
  | call function => convertCall tuning role function.read

def Literal.convert (tuning : Tuning Float) (role : Role) (literal : Literal) :
    Text → Except ColourError Text := literal.kind.convert tuning role literal.body

section passes

variable {tuning : Tuning Float} {role : Role} {kind : Kind}

/-- What a pass over the literals of a kind makes of a tile. -/
inductive Tile.Turns (tuning : Tuning Float) (role : Role) (kind : Kind) : Tile → Tile → Prop where
  | keep {tile : Tile} : tile.kind? ≠ some kind → Turns tuning role kind tile tile
  | turn {tile new : Tile} {literal : Literal} :
      tile.literal? = some literal → literal.kind = kind →
        literal.convert tuning role tile.text = .ok new.text → Tile.Like tile new → new.Sound →
          new.kind? = some kind ∨ kind = .call .hsl → Turns tuning role kind tile new

theorem Tile.Like.refl (tile : Tile) : Tile.Like tile tile := by cases tile <;> constructor

theorem Tile.Turns.like {tile new : Tile} (turns : Tile.Turns tuning role kind tile new) :
    Tile.Like tile new := by
  cases turns with
  | keep => exact .refl tile
  | turn _ _ _ like => exact like

theorem Mosaic.turns {olds news : List Tile}
    (each : List.Forall₂ (Tile.Turns tuning role kind) olds news) {word : Bool}
    (laid : Mosaic word olds) : Mosaic word news := by
  induction each generalizing word with
  | nil => exact .nil
  | @cons tile new olds news turns others ih =>
    have sound : new.Sound := by
      cases turns with
      | keep => exact laid.sound _ (List.mem_cons_self ..)
      | turn _ _ _ _ sound => exact sound
    cases turns.like with
    | plain c =>
      cases laid with | plain laid =>
      exact .plain (ih laid)
    | hex digits digits' =>
      cases laid with | hex _ _ laid =>
      exact .hex sound.1 sound.2 (ih laid)
    | call function function' met inside met' inside' =>
      cases laid with | call outside _ _ laid =>
      exact .call outside sound.1 sound.2 (ih laid)

theorem exists_turn_hex {digits written : Text} (sound : (Tile.hex digits).Sound)
    (converted : convertHexLiteral tuning role digits ('#' :: digits) = .ok written) :
    ∃ new : Tile, Tile.Turns tuning role .hex (.hex digits) new ∧ written = new.text := by
  obtain ⟨news, rfl, ink, digital⟩ := exists_of_convertHexLiteral sound.1 sound.2 converted
  exact ⟨.hex news, .turn rfl rfl converted (.hex ..) ⟨ink, digital⟩ (.inl rfl), rfl⟩

theorem exists_turn_call {function : Function} {met inside written : Text}
    (sound : (Tile.call function met inside).Sound)
    (converted : convertCall tuning role function.read (Text.trimLeft inside)
      (Tile.call function met inside).text = .ok written) :
    ∃ new : Tile, Tile.Turns tuning role (.call function) (.call function met inside) new ∧
      written = new.text := by
  rcases exists_of_convertCall converted with rfl | ⟨met', inside', rfl, names, _, flat⟩
  · exact ⟨.call function met inside, .turn rfl rfl converted (.refl _) sound (.inl rfl), rfl⟩
  · refine ⟨.call .rgb met' inside', .turn rfl rfl converted (.call ..) ⟨names, flat⟩ ?_, rfl⟩
    cases function
    · exact .inl rfl
    · exact .inr rfl

/-- A pass turns the literals of its kind, one by one. -/
theorem exists_turn {tile : Tile} (sound : tile.Sound) {parts : List Text}
    (each : List.Forall₂ (fun fragment part =>
      fragment.attempt (kind.convert tuning role) = .ok part) (tile.read kind) parts) :
    ∃ new : Tile, Tile.Turns tuning role kind tile new ∧ parts.flatten = new.text := by
  -- A tile of another kind is read as plain characters, and they are written as they are.
  have kept (other : tile.kind? ≠ some kind)
      (each : List.Forall₂ (fun (fragment : Text.Fragment Text) part =>
        fragment.attempt (kind.convert tuning role) = .ok part) (tile.text.map .plain) parts) :
      ∃ new : Tile, Tile.Turns tuning role kind tile new ∧ parts.flatten = new.text := by
    rw [← List.append_nil (tile.text.map _)] at each
    obtain ⟨rest, whole, none⟩ := Text.exists_of_attempts each
    cases none
    exact ⟨tile, .keep other, by simpa using whole⟩
  unfold Tile.read at each
  split at each
  next literal named =>
    split at each
    next same =>
      obtain _ | @⟨_, part, _, _, converted, none⟩ := each
      cases none
      rw [List.flatten_cons, List.flatten_nil, List.append_nil]
      cases tile with
      | plain c => cases named
      | hex digits =>
        obtain rfl := Option.some.inj named
        subst same
        exact exists_turn_hex sound converted
      | call function met inside =>
        obtain rfl := Option.some.inj named
        subst same
        exact exists_turn_call sound converted
    next other =>
      refine kept ?_ each
      rw [Tile.kind?, named]
      exact fun same => other (Option.some.inj same)
  next unnamed =>
    refine kept ?_ each
    rw [Tile.kind?, unnamed]
    simp

/-- What is attempted on tiles one by one is written in tiles. -/
theorem exists_turns {tiles : List Tile} (sound : ∀ tile ∈ tiles, tile.Sound) {parts : List Text}
    (each : List.Forall₂ (fun fragment part =>
      fragment.attempt (kind.convert tuning role) = .ok part)
      (tiles.flatMap (Tile.read kind)) parts) :
    ∃ news, List.Forall₂ (Tile.Turns tuning role kind) tiles news ∧ parts.flatten = tiled news := by
  induction tiles generalizing parts with
  | nil =>
    cases each
    exact ⟨[], .nil, rfl⟩
  | cons tile rest ih =>
    rw [List.forall_mem_cons] at sound
    rw [List.flatMap_cons] at each
    obtain ⟨first, second, rfl, here, later⟩ :
        ∃ first second, parts = first ++ second ∧ List.Forall₂ _ (tile.read kind) first ∧
          List.Forall₂ _ (rest.flatMap (Tile.read kind)) second := by
      refine ⟨_, _, (List.take_append_drop (tile.read kind).length parts).symm, ?_, ?_⟩
      · exact (List.forall₂_take_append _ _ _ each.flip).flip
      · exact (List.forall₂_drop_append _ _ _ each.flip).flip
    obtain ⟨new, turns, written⟩ := exists_turn sound.1 here
    obtain ⟨news, others, whole⟩ := ih sound.2 later
    exact ⟨new :: news, .cons turns others, by rw [List.flatten_append, written, whole]; rfl⟩

theorem Tile.Turns.eq_of_other {tile new : Tile} (turns : Tile.Turns tuning role kind tile new)
    (other : tile.kind? ≠ some kind) : new = tile := by
  cases turns with
  | keep => rfl
  | turn named same =>
    rw [Tile.kind?, named] at other
    exact absurd (congrArg some same) other

theorem Tile.Turns.converted {tile new : Tile} (turns : Tile.Turns tuning role kind tile new)
    {literal : Literal} (named : tile.literal? = some literal) (same : literal.kind = kind) :
    literal.convert tuning role tile.text = .ok new.text ∧
      (new.kind? = some kind ∨ kind = .call .hsl) := by
  cases turns with
  | keep other =>
    rw [Tile.kind?, named] at other
    exact absurd (congrArg some same) other
  | turn named' _ converted _ _ stays =>
    obtain rfl := Option.some.inj (named.symm.trans named')
    exact ⟨converted, stays⟩

/-- What is written for the literals of a kind is no literal of a later one. -/
theorem Tile.Turns.hits_eq {tile new : Tile} (turns : Tile.Turns tuning role kind tile new)
    (early : kind ≠ .call .hsl) {later : Kind} (other : later ≠ kind) :
    (new.read later).filterMap Text.Fragment.hit?
      = (tile.read later).filterMap Text.Fragment.hit? := by
  have hitless {tile : Tile} (same : tile.kind? = some kind) :
      (tile.read later).filterMap Text.Fragment.hit? = [] := by
    obtain ⟨literal, named, rfl⟩ := Option.map_eq_some_iff.mp same
    simp only [Tile.read, named, if_neg other.symm]
    exact Text.filterMap_hit?_map_plain _
  cases turns with
  | keep => rfl
  | turn named same _ _ _ stays =>
    have kind : tile.kind? = some kind := by rw [Tile.kind?, named, Option.map_some, same]
    rw [hitless kind, hitless (stays.resolve_right early)]

end passes

/-! ### All passes -/

section all

variable {tuning : Tuning Float} {role : Role} {tiles : List Tile}

/-- A tile with its literal converted, if it is one. -/
structure Tile.Converts (tuning : Tuning Float) (role : Role) (tile new : Tile) : Prop where
  like : Tile.Like tile new
  attempt : tile.fragment.attempt (Literal.convert tuning role) = .ok new.text

/-- Each literal is turned in the pass for its kind and left in the others. -/
theorem Tile.Turns.converts {tile hexed rgbed new : Tile}
    (first : Tile.Turns tuning role .hex tile hexed)
    (second : Tile.Turns tuning role (.call .rgb) hexed rgbed)
    (third : Tile.Turns tuning role (.call .hsl) rgbed new) :
    Tile.Converts tuning role tile new := by
  cases tile with
  | plain c =>
    obtain rfl := first.eq_of_other (by simp [Tile.kind?, Tile.literal?])
    obtain rfl := second.eq_of_other (by simp [Tile.kind?, Tile.literal?])
    obtain rfl := third.eq_of_other (by simp [Tile.kind?, Tile.literal?])
    exact ⟨.refl _, rfl⟩
  | hex digits =>
    obtain ⟨converted, stays⟩ := first.converted rfl rfl
    have kind := stays.resolve_right (by decide)
    obtain rfl := second.eq_of_other (by simp [kind])
    obtain rfl := third.eq_of_other (by simp [kind])
    exact ⟨first.like, converted⟩
  | call function met inside =>
    obtain rfl := first.eq_of_other (by simp [Tile.kind?, Tile.literal?])
    cases function with
    | rgb =>
      obtain ⟨converted, stays⟩ := second.converted rfl rfl
      have kind := stays.resolve_right (by decide)
      obtain rfl := third.eq_of_other (by simp [kind])
      exact ⟨second.like, converted⟩
    | hsl =>
      obtain rfl := second.eq_of_other (by simp [Tile.kind?, Tile.literal?])
      exact ⟨third.like, (third.converted rfl rfl).1⟩

/-- A text with its tiles. -/
structure Tiling (text : Text) (tiles : List Tile) : Prop where
  whole : tiled tiles = text
  laid : Mosaic false tiles
  settled : Settled none tiles

namespace Tiling

variable {text : Text} (tiling : Tiling text tiles)
include tiling

theorem fragments_eq (function : Function) :
    Text.fragments (Kind.call function).matcher none text
      = tiles.flatMap (Tile.read (.call function)) := by
  rw [← tiling.whole]
  exact fragments_tiled function tiling.laid rfl tiling.settled

theorem turned {kind : Kind} {news : List Tile}
    (each : List.Forall₂ (Tile.Turns tuning role kind) tiles news) :
    Tiling (tiled news) news := by
  have laid := tiling.laid.turns each
  have like := each.imp fun _ _ turns => turns.like
  exact ⟨rfl, laid, tiling.settled.exchange like tiling.laid laid rfl⟩

/-- A pass that reads the tiles one by one turns them. -/
theorem exists_pass (kind : Kind)
    (read : Text.fragments kind.matcher none text = tiles.flatMap (Tile.read kind)) {new : Text}
    (rewritten : Text.tryRewrite kind.matcher (kind.convert tuning role) text = .ok new) :
    ∃ news, List.Forall₂ (Tile.Turns tuning role kind) tiles news ∧ Tiling new news := by
  obtain ⟨parts, rfl, each⟩ := Text.exists_of_tryRewrite rewritten
  rw [read] at each
  obtain ⟨news, turned, whole⟩ := exists_turns tiling.laid.sound each
  exact ⟨news, turned, by rw [whole]; exact tiling.turned turned⟩

end Tiling

/-- The literals of a kind that a search for all literals finds in a text that stands alone. -/
def literalsOf (kind : Kind) (text : Text) : List (Text × Text) :=
  (Text.hits literalMatcher text).filterMap fun (_, literal, covered) =>
    if literal.kind = kind then some (literal.body, covered) else none

/-- A hit of a search for all literals as one of a search for a kind. -/
def Kind.select? (kind : Kind) (hit : Nat × Literal × Text) : Option (Nat × Text × Text) :=
  if hit.2.1.kind = kind then some (hit.1, hit.2.1.body, hit.2.2) else none

/-- A search for a kind that reads the tiles one by one finds the literals of its kind, each in its
place. -/
theorem placedHits_read (kind : Kind) (start : Nat) (tiles : List Tile) :
    Text.placedHits start (tiles.flatMap (Tile.read kind))
      = (Text.placedHits start (tiles.map Tile.fragment)).filterMap kind.select? := by
  induction tiles generalizing start with
  | nil => rfl
  | cons tile rest ih =>
    rw [List.map_cons, List.flatMap_cons]
    cases named : tile.literal? with
    | none =>
      cases tile with
      | plain c => exact ih (start + 1)
      | hex => cases named
      | call => cases named
    | some literal =>
      rw [Tile.fragment_eq named, Text.placedHits, List.filterMap_cons, ← ih]
      by_cases same : literal.kind = kind
      · simp [Tile.read, named, same, Kind.select?, Text.placedHits]
      · simp only [Tile.read, named, if_neg same, Kind.select?, Text.placedHits_plain_append]

theorem literalsOf_eq {kind : Kind} {text : Text}
    (found : Text.fragments literalMatcher none text = tiles.map Tile.fragment) :
    literalsOf kind text = (tiles.flatMap (Tile.read kind)).filterMap Text.Fragment.hit? := by
  rw [← Text.map_snd_placedHits 0, placedHits_read, literalsOf, Text.hits, found,
    List.map_filterMap]
  congr 1
  apply funext
  rintro ⟨place, literal, covered⟩
  by_cases same : literal.kind = kind <;> simp [Kind.select?, same]

theorem filterMap_hit?_turned {kind later : Kind} {news : List Tile}
    (each : List.Forall₂ (Tile.Turns tuning role kind) tiles news) (early : kind ≠ .call .hsl)
    (other : later ≠ kind) :
    (news.flatMap (Tile.read later)).filterMap Text.Fragment.hit?
      = (tiles.flatMap (Tile.read later)).filterMap Text.Fragment.hit? := by
  induction each with
  | nil => rfl
  | cons turns _ ih =>
    rw [List.flatMap_cons, List.flatMap_cons, List.filterMap_append, List.filterMap_append, ih,
      turns.hits_eq early other]

/-- No hexadecimal literal stands in a call that a search for all literals finds. -/
def HexlessCalls (text : Text) : Prop :=
  ∀ literal covered, .hit literal covered ∈ Text.fragments literalMatcher none text →
    literal.kind ≠ .hex → Text.holdsMatch hexMatcher covered = false

theorem exists_tiling (text : Text) :
    ∃ tiles, Tiling text tiles ∧
      Text.fragments literalMatcher none text = tiles.map Tile.fragment ∧
      (HexlessCalls text →
        Text.fragments hexMatcher none text = tiles.flatMap (Tile.read .hex)) := by
  obtain ⟨tiles, rfl, laid, found⟩ := exists_tiles none text
  refine ⟨tiles, ⟨rfl, laid, found.settled⟩, found.fragments_eq, fun hexless => ?_⟩
  refine found.fragments_hex fun tile listed => ?_
  cases tile with
  | plain => trivial
  | hex => trivial
  | call function met inside =>
    refine hexless ⟨.call function, Text.trimLeft inside⟩ _ ?_ (by simp)
    rw [found.fragments_eq]
    exact List.mem_map_of_mem listed

section passes

variable {text : Text} (tiling : Tiling text tiles)
  (read : Text.fragments hexMatcher none text = tiles.flatMap (Tile.read .hex))
include tiling read

/-- The literals that the passes meet are those of their kinds that were there at first. -/
theorem map_snd_hits_of_passes
    (found : Text.fragments literalMatcher none text = tiles.map Tile.fragment) {hexed rgbed : Text}
    (first : Text.tryRewrite hexMatcher (convertHexLiteral tuning role) text = .ok hexed)
    (second : Text.tryRewrite rgbMatcher (convertCall tuning role parseRgb?) hexed = .ok rgbed) :
    (Text.hits hexMatcher text).map (·.2) = literalsOf .hex text ∧
      (Text.hits rgbMatcher hexed).map (·.2) = literalsOf (.call .rgb) text ∧
      (Text.hits hslMatcher rgbed).map (·.2) = literalsOf (.call .hsl) text := by
  obtain ⟨hexes, turnedHex, tilingHex⟩ := tiling.exists_pass .hex read first
  obtain ⟨rgbs, turnedRgb, tilingRgb⟩ :=
    tilingHex.exists_pass (.call .rgb) (tilingHex.fragments_eq .rgb) second
  have early (function : Function) :
      (hexes.flatMap (Tile.read (.call function))).filterMap Text.Fragment.hit?
        = literalsOf (.call function) text := by
    rw [literalsOf_eq found]
    exact filterMap_hit?_turned turnedHex (by decide) (by simp)
  refine ⟨?_, ?_, ?_⟩
  · rw [Text.hits, Text.map_snd_placedHits, read, literalsOf_eq found]
  · rw [Text.hits, Text.map_snd_placedHits, ← early .rgb, ← tilingHex.fragments_eq .rgb]
    rfl
  · rw [Text.hits, Text.map_snd_placedHits, ← early .hsl,
      ← filterMap_hit?_turned turnedRgb (by decide) (by simp), ← tilingRgb.fragments_eq .hsl]
    rfl

/-- Three passes convert each literal once. -/
theorem exists_of_convertPlain {new : Text} (converted : convertPlain tuning role text = .ok new) :
    ∃ news, List.Forall₂ (Tile.Converts tuning role) tiles news ∧ Tiling new news := by
  obtain ⟨hexed, first, rest⟩ := Text.exists_of_bind_ok converted
  obtain ⟨rgbed, second, third⟩ := Text.exists_of_bind_ok rest
  obtain ⟨hexes, turnedHex, tilingHex⟩ := tiling.exists_pass .hex read first
  obtain ⟨rgbs, turnedRgb, tilingRgb⟩ :=
    tilingHex.exists_pass (.call .rgb) (tilingHex.fragments_eq .rgb) second
  obtain ⟨news, turnedHsl, tilingHsl⟩ :=
    tilingRgb.exists_pass (.call .hsl) (tilingRgb.fragments_eq .hsl) third
  refine ⟨news, ?_, tilingHsl⟩
  clear tiling tilingHex tilingRgb tilingHsl read converted rest first second third
  induction turnedHex generalizing rgbs news with
  | nil =>
    cases turnedRgb
    cases turnedHsl
    exact .nil
  | cons turnHex _ ih =>
    obtain _ | ⟨turnRgb, turnedRgb⟩ := turnedRgb
    obtain _ | ⟨turnHsl, turnedHsl⟩ := turnedHsl
    exact .cons (turnHex.converts turnRgb turnHsl) (ih _ turnedRgb _ turnedHsl)

/-- Three passes one after the other come to one replacement of all literals. -/
theorem tryRewrite_of_convertPlain
    (found : Text.fragments literalMatcher none text = tiles.map Tile.fragment) {new : Text}
    (converted : convertPlain tuning role text = .ok new) :
    Text.tryRewrite literalMatcher (Literal.convert tuning role) text = .ok new := by
  obtain ⟨news, each, tiling'⟩ := exists_of_convertPlain tiling read converted
  refine Text.tryRewrite_ok_iff.mpr ⟨news.map Tile.text, tiling'.whole.symm, ?_⟩
  rw [found, List.forall₂_map_left_iff, List.forall₂_map_right_iff]
  exact each.imp fun _ _ converts => converts.attempt

end passes

end all

end ThemeCss.Dark
