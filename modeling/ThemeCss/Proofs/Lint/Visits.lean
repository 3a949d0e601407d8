import ThemeCss.Proofs.Lint.Leftover
import ThemeCss.Proofs.Scan.Partner
import ThemeCss.Proofs.Variables.Descent
import ThemeCss.Proofs.Variables.Reach

/-!
# Visits

The resolver and the check for references both go through a text with a cursor, and every search
starts as if the text began there. Nothing is lost by that: a reference is visited in code, it
closes in code, and the next search starts right behind. So each search sees what a scan of the
whole text sees, the two loops visit the same references one behind the other, and the check reports
each of them once.
-/
namespace ThemeCss.Lint

open Scan Variables

/-- A call starts at the place, in code for a scan of the whole text. -/
def CallsAt (text : Text) (place : Nat) : Prop :=
  CalledAt text (text.take place) (text.drop place)

/-- A reference that is visited: where it starts, and where it closes if it does. -/
structure Visit where
  start : Nat
  close : Option Nat
  deriving DecidableEq, Repr

/-- What stands behind the opening parenthesis, up to the closing one. -/
def Visit.arguments (visit : Visit) (text : Text) : Text :=
  match visit.close with
  | some close => text.extract (visit.start + 4) close
  | none => text.drop (visit.start + 4)

/-- The visit that a search from the cursor comes to. -/
def visit? (text : Text) (cursor : Nat) : Option Visit :=
  (nextCall? text cursor).map fun start => ⟨start, Bracket.round.closing? text (start + 3)⟩

/-! ### A single search -/

/-- Behind closed text the whole scan reads a call in code if a scan that starts there does. -/
theorem callsAt_add_iff {text : Text} {cursor : Nat} (closed : Closed (text.take cursor))
    (n : Nat) : CallsAt text (cursor + n) ↔
      CalledAt (text.drop cursor) ((text.drop cursor).take n) ((text.drop cursor).drop n) := by
  constructor
  · rintro ⟨_, code, starts⟩
    refine ⟨(List.take_append_drop n _).symm, ?_, ?_⟩
    · rwa [List.take_add, closed_append_iff closed] at code
    · rwa [List.drop_drop]
  · rintro ⟨_, code, starts⟩
    refine ⟨(List.take_append_drop _ text).symm, ?_, ?_⟩
    · rwa [List.take_add, closed_append_iff closed]
    · rwa [List.drop_drop] at starts

/-- Where a call starts, its three letters stand in front of an opening parenthesis. -/
theorem exists_letters {text : Text} {place : Nat}
    (starts : (dropCall? (text.drop place)).isSome = true) :
    ∃ letters after, letters.length = 3 ∧ (∀ c ∈ letters, isOrdinary c = true) ∧
      text.drop place = letters ++ '(' :: after := by
  obtain ⟨after, dropped⟩ := Option.isSome_iff_exists.mp starts
  obtain ⟨letters, keyword, parts⟩ := exists_of_dropCall? dropped
  exact ⟨letters, after, Text.isKeyword_length keyword,
    ordinary_of_avoids (Text.avoids_of_isKeyword (by decide) keyword), parts⟩

theorem lt_length_of_starts {text : Text} {place : Nat}
    (starts : (dropCall? (text.drop place)).isSome = true) : place < text.length := by
  obtain ⟨letters, after, _, _, parts⟩ := exists_letters starts
  have size := congrArg List.length parts
  simp only [List.length_drop, List.length_append, List.length_cons] at size
  omega

theorem nextCall?_starts {text : Text} {cursor start : Nat}
    (found : nextCall? text cursor = some start) :
    cursor ≤ start ∧ (dropCall? (text.drop start)).isSome = true := by
  obtain ⟨⟨before, call⟩, split, same⟩ := Option.map_eq_some_iff.mp found
  obtain rfl : cursor + before.length = start := same
  obtain ⟨parts, starts⟩ := splitCall?_sound split
  refine ⟨Nat.le_add_right .., ?_⟩
  rwa [← List.drop_drop, parts, List.drop_left]

section search

variable {text : Text} {cursor : Nat} (closed : cursor < text.length → Closed (text.take cursor))
include closed

theorem nextCall?_first {start : Nat} (found : nextCall? text cursor = some start) :
    cursor ≤ start ∧ CallsAt text start ∧
      ∀ place, cursor ≤ place → CallsAt text place → start ≤ place := by
  obtain ⟨⟨before, call⟩, split, same⟩ := Option.map_eq_some_iff.mp found
  obtain rfl : cursor + before.length = start := same
  obtain ⟨parts, starts⟩ := splitCall?_sound split
  have first := firstCall_of_splitCall? split
  have within := lt_length_of_starts (nextCall?_starts found).2
  refine ⟨Nat.le_add_right .., ?_, ?_⟩
  · rw [callsAt_add_iff (closed (by omega)), parts, List.take_left, List.drop_left]
    exact ⟨rfl, first.after, starts⟩
  · intro place ahead calls
    obtain ⟨n, rfl⟩ := Nat.exists_eq_add_of_le ahead
    rw [callsAt_add_iff (closed (by omega))] at calls
    exact Nat.add_le_add_left (first.le_of_starts calls.code calls.starts) cursor

/-- Where a search finds nothing, the whole scan reads no call in code from the cursor on. -/
theorem nextCall?_eq_none_iff :
    nextCall? text cursor = none ↔ ∀ place, cursor ≤ place → ¬ CallsAt text place := by
  constructor
  · intro missing place ahead calls
    have within := lt_length_of_starts calls.starts
    obtain ⟨n, rfl⟩ := Nat.exists_eq_add_of_le ahead
    rw [callsAt_add_iff (closed (by omega))] at calls
    have called := (hasReference_iff _).mpr ⟨_, _, calls⟩
    rw [nextCall?, Option.map_eq_none_iff] at missing
    rw [hasReference, missing] at called
    cases called
  · intro never
    cases found : nextCall? text cursor with
    | none => rfl
    | some start =>
      obtain ⟨ahead, calls, _⟩ := nextCall?_first closed found
      exact absurd calls (never start ahead)

/-- A search finds the first call from the cursor on that the whole scan reads in code. -/
theorem nextCall?_eq_some_iff (start : Nat) : nextCall? text cursor = some start ↔
    cursor ≤ start ∧ CallsAt text start ∧
      ∀ place, cursor ≤ place → CallsAt text place → start ≤ place := by
  constructor
  · exact nextCall?_first closed
  · rintro ⟨ahead, calls, first⟩
    cases found : nextCall? text cursor with
    | none => exact absurd calls ((nextCall?_eq_none_iff closed).mp found start ahead)
    | some other =>
      obtain ⟨otherAhead, otherCalls, otherFirst⟩ := nextCall?_first closed found
      rw [Nat.le_antisymm (otherFirst start ahead calls) (first other otherAhead otherCalls)]

end search

/-- The parenthesis of a call stands three characters behind its start. -/
theorem exists_opens {text : Text} {place : Nat}
    (starts : (dropCall? (text.drop place)).isSome = true) :
    ∃ after, text.drop (place + 3) = '(' :: after := by
  obtain ⟨letters, after, three, _, parts⟩ := exists_letters starts
  exact ⟨after, by rw [← List.drop_drop, parts, ← three, List.drop_left]⟩

theorem CallsAt.closed_letters {text : Text} {place : Nat} (calls : CallsAt text place) :
    Closed (text.take (place + 3)) := by
  obtain ⟨letters, after, three, ordinary, parts⟩ := exists_letters calls.starts
  rw [List.take_add, parts, ← three, List.take_left]
  exact calls.code.append (closed_of_ordinary ordinary)

/-- Behind a reference that closes, a scan of the whole text is in code, if it was at the cursor. -/
theorem closed_of_visit? {text : Text} {cursor start close : Nat}
    (closed : Closed (text.take cursor)) (visited : visit? text cursor = some ⟨start, some close⟩) :
    Closed (text.take (close + 1)) := by
  obtain ⟨place, found, same⟩ := Option.map_eq_some_iff.mp visited
  obtain ⟨rfl, closes⟩ := Visit.mk.inj same
  obtain ⟨_, calls, _⟩ := nextCall?_first (fun _ => closed) found
  obtain ⟨after, opens⟩ := exists_opens calls.starts
  obtain ⟨ahead, _, body⟩ := Bracket.closed_of_closing? opens Bracket.round_sound closes
  have whole : text.take (close + 1)
      = text.take (place + 3) ++ text.extract (place + 3) (close + 1) := by
    rw [List.extract_eq_take_drop, ← List.take_add]
    congr 1
    omega
  rw [whole]
  exact calls.closed_letters.append body

/-- A visit starts at the cursor or behind it, and closes within the text. -/
theorem visit?_bounds {text : Text} {cursor : Nat} {visit : Visit}
    (visited : visit? text cursor = some visit) :
    cursor ≤ visit.start ∧ visit.start < text.length ∧
      ∀ close ∈ visit.close, visit.start < close ∧ close < text.length := by
  obtain ⟨start, found, rfl⟩ := Option.map_eq_some_iff.mp visited
  obtain ⟨ahead, starts⟩ := nextCall?_starts found
  refine ⟨ahead, lt_length_of_starts starts, ?_⟩
  intro close closes
  obtain ⟨after, opens⟩ := exists_opens starts
  obtain ⟨behind, within, _⟩ := Bracket.closed_of_closing? opens Bracket.round_sound closes
  have inside : start < close := by omega
  exact ⟨inside, within⟩

/-! ### The two loops -/

/-- A search of a loop: the cursor it starts from, and the visit it comes to. -/
structure Search where
  cursor : Nat
  found : Option Visit
  deriving DecidableEq, Repr

/-- The searches of the resolver from a cursor on. While there is text left, it searches behind the
reference that closed last; at one that never closes it stops. -/
def resolverSearches (text : Text) (cursor : Nat) : List Search :=
  if cursor < text.length then
    match _visited : visit? text cursor with
    | none => [⟨cursor, none⟩]
    | some ⟨start, none⟩ => [⟨cursor, some ⟨start, none⟩⟩]
    | some ⟨start, some close⟩ =>
      ⟨cursor, some ⟨start, some close⟩⟩ :: resolverSearches text (close + 1)
  else []
termination_by text.length - cursor
decreasing_by
  obtain ⟨ahead, _, behind⟩ := visit?_bounds _visited
  have inside := behind close rfl
  simp only at ahead inside
  omega

/-- The searches of the check from a cursor on. It searches behind the reference that closed last,
or at the end of the text behind one that never closes, until nothing is found. -/
def checkSearches (text : Text) (cursor : Nat) : List Search :=
  match _visited : visit? text cursor with
  | none => [⟨cursor, none⟩]
  | some ⟨start, none⟩ => ⟨cursor, some ⟨start, none⟩⟩ :: checkSearches text text.length
  | some ⟨start, some close⟩ =>
    ⟨cursor, some ⟨start, some close⟩⟩ :: checkSearches text (close + 1)
termination_by text.length - cursor
decreasing_by
  all_goals
    obtain ⟨ahead, within, behind⟩ := visit?_bounds _visited
    simp only [Option.mem_def, Option.some.injEq, forall_eq', reduceCtorEq, false_imp_iff,
      implies_true] at ahead within behind
    omega

def visits (searches : List Search) : List Visit := searches.filterMap (·.found)

theorem visits_cons_found (cursor : Nat) (visit : Visit) (rest : List Search) :
    visits (⟨cursor, some visit⟩ :: rest) = visit :: visits rest := rfl

/-- A search loses nothing: a scan of the whole text is in code at its cursor, if any text is left
there, and the search finds the first call from the cursor on that the whole scan reads in code. -/
structure Lossless (text : Text) (cursor : Nat) : Prop where
  code : cursor < text.length → Closed (text.take cursor)
  first : ∀ start, nextCall? text cursor = some start ↔
    cursor ≤ start ∧ CallsAt text start ∧
      ∀ place, cursor ≤ place → CallsAt text place → start ≤ place
  none : nextCall? text cursor = none ↔ ∀ place, cursor ≤ place → ¬ CallsAt text place

theorem lossless_of_closed {text : Text} {cursor : Nat}
    (closed : cursor < text.length → Closed (text.take cursor)) : Lossless text cursor :=
  ⟨closed, nextCall?_eq_some_iff closed, nextCall?_eq_none_iff closed⟩

/-- What one visit leaves behind, the next search may start from. -/
theorem Lossless.behind {text : Text} {cursor start close : Nat} (lossless : Lossless text cursor)
    (visited : visit? text cursor = some ⟨start, some close⟩) : Lossless text (close + 1) := by
  obtain ⟨ahead, within, _⟩ := visit?_bounds visited
  exact lossless_of_closed fun _ => closed_of_visit? (lossless.code (by omega)) visited

theorem lossless_start (text : Text) : Lossless text 0 := lossless_of_closed fun _ => rfl

theorem lossless_end (text : Text) : Lossless text text.length :=
  lossless_of_closed fun within => absurd within (Nat.lt_irrefl _)

/-- No search of the check loses anything, if the first one does not. -/
theorem lossless_of_mem_check {text : Text} {cursor : Nat} (lossless : Lossless text cursor)
    {search : Search} (listed : search ∈ checkSearches text cursor) :
    Lossless text search.cursor ∧ search.found = visit? text search.cursor := by
  -- What is carried from one search to the next is that its cursor loses nothing.
  fun_induction checkSearches text cursor with
  | case1 cursor missing =>
    obtain rfl := List.mem_singleton.mp listed
    exact ⟨lossless, missing.symm⟩
  | case2 cursor start visited ih =>
    rcases List.mem_cons.mp listed with rfl | later
    · exact ⟨lossless, visited.symm⟩
    · exact ih (lossless_end text) later
  | case3 cursor start close visited ih =>
    rcases List.mem_cons.mp listed with rfl | later
    · exact ⟨lossless, visited.symm⟩
    · exact ih (lossless.behind visited) later

/-! ### The references they visit -/

section equations

variable {text : Text} {cursor start close : Nat}

theorem checkSearches_of_missing (missing : visit? text cursor = none) :
    checkSearches text cursor = [⟨cursor, none⟩] := by
  rw [checkSearches]
  split <;> simp_all

theorem checkSearches_of_unclosed (visited : visit? text cursor = some ⟨start, none⟩) :
    checkSearches text cursor = ⟨cursor, some ⟨start, none⟩⟩ :: checkSearches text text.length := by
  rw [checkSearches]
  split <;> simp_all

theorem checkSearches_of_closed (visited : visit? text cursor = some ⟨start, some close⟩) :
    checkSearches text cursor
      = ⟨cursor, some ⟨start, some close⟩⟩ :: checkSearches text (close + 1) := by
  rw [checkSearches]
  split <;> simp_all

theorem visit?_of_le (past : text.length ≤ cursor) : visit? text cursor = none := by
  cases visited : visit? text cursor with
  | none => rfl
  | some visit =>
    obtain ⟨ahead, within, _⟩ := visit?_bounds visited
    omega

end equations

/-- The check searches as the resolver does, and perhaps once more without a visit. -/
theorem exists_checkSearches (text : Text) (cursor : Nat) : ∃ idle, visits idle = [] ∧
    checkSearches text cursor = resolverSearches text cursor ++ idle := by
  fun_induction resolverSearches text cursor with
  | case1 cursor within missing => exact ⟨[], rfl, checkSearches_of_missing missing⟩
  | case2 cursor within start visited =>
    -- Behind a reference that never closes the check looks at the end of the text.
    refine ⟨[⟨text.length, none⟩], rfl, ?_⟩
    rw [checkSearches_of_unclosed visited, checkSearches_of_missing (visit?_of_le (Nat.le_refl _))]
    rfl
  | case3 cursor within start close visited ih =>
    obtain ⟨idle, nothing, same⟩ := ih
    refine ⟨idle, nothing, ?_⟩
    rw [checkSearches_of_closed visited, same]
    rfl
  | case4 cursor past =>
    exact ⟨[⟨cursor, none⟩], rfl, checkSearches_of_missing (visit?_of_le (Nat.le_of_not_lt past))⟩

/-- Both loops visit the same references. -/
theorem visits_resolverSearches (text : Text) (cursor : Nat) :
    visits (resolverSearches text cursor) = visits (checkSearches text cursor) := by
  obtain ⟨idle, nothing, same⟩ := exists_checkSearches text cursor
  rw [visits] at nothing
  rw [same, visits, visits, List.filterMap_append, nothing, List.append_nil]

/-- One reference closes before the other starts. -/
def Precedes (first second : Visit) : Prop :=
  ∃ close, first.close = some close ∧ first.start < close ∧ close < second.start

theorem le_of_mem_visits {text : Text} {cursor : Nat} {visit : Visit}
    (listed : visit ∈ visits (resolverSearches text cursor)) : cursor ≤ visit.start := by
  fun_induction resolverSearches text cursor with
  | case1 => cases listed
  | case2 cursor within start visited =>
    obtain rfl := List.mem_singleton.mp listed
    exact (visit?_bounds visited).1
  | case3 cursor within start close visited ih =>
    obtain ⟨ahead, _, behind⟩ := visit?_bounds visited
    have inside := behind close rfl
    rcases List.mem_cons.mp listed with rfl | later
    · exact ahead
    · have further := ih later
      simp only at ahead inside
      omega
  | case4 => cases listed

theorem precedes_visits (text : Text) (cursor : Nat) :
    (visits (resolverSearches text cursor)).Pairwise Precedes := by
  fun_induction resolverSearches text cursor with
  | case1 => exact .nil
  | case2 => exact List.pairwise_singleton ..
  | case3 cursor within start close visited ih =>
    refine .cons ?_ ih
    intro visit later
    have further := le_of_mem_visits later
    exact ⟨close, rfl, ((visit?_bounds visited).2.2 close rfl).1, further⟩
  | case4 => exact .nil

/-! ### What the loops make of them -/

/-- What the resolver writes for a search: the text before the reference and what stands for it, or
the text that is left. -/
def Search.write (definitions : Definitions) (resolving : List Text) (text : Text)
    (search : Search) : Text :=
  match search.found with
  | none => text.drop search.cursor
  | some ⟨start, none⟩ => text.extract search.cursor start ++ text.drop start
  | some ⟨start, some close⟩ => text.extract search.cursor start
      ++ resolvePiece definitions resolving (.call callWord (text.extract (start + 4) close))

theorem visit?_loop (resolving : List Text) (text : Text) (cursor : Nat) :
    Loop.visit? ⟨resolving, text, cursor⟩
      = (visit? text cursor).bind fun visit =>
          visit.close.map fun close => (visit.start, close) := by
  rw [visit?, Option.bind_map]
  rfl

/-- The resolver writes what its searches come to, one behind the other. -/
theorem resolve_drop (definitions : Definitions) (resolving : List Text) (text : Text)
    (cursor : Nat) : resolve definitions resolving (text.drop cursor)
      = (resolverSearches text cursor).flatMap (Search.write definitions resolving text) := by
  have loop := visit?_loop resolving text
  fun_induction resolverSearches text cursor with
  | case1 cursor within missing =>
    have stands := Loop.resolve_of_visit?_eq_none (by rw [loop, missing]; rfl) definitions
    rw [List.flatMap_singleton]
    exact stands
  | case2 cursor within start visited =>
    have stands := Loop.resolve_of_visit?_eq_none (by rw [loop, visited]; rfl) definitions
    obtain ⟨further, rfl⟩ := Nat.exists_eq_add_of_le (visit?_bounds visited).1
    have written : Search.write definitions resolving text ⟨cursor, some ⟨cursor + further, none⟩⟩
        = text.extract cursor (cursor + further) ++ text.drop (cursor + further) := rfl
    rw [List.flatMap_singleton, written, List.extract_eq_take_drop, Nat.add_sub_cancel_left,
      ← List.drop_drop, List.take_append_drop]
    exact stands
  | case3 cursor within start close visited ih =>
    have written := Loop.resolve_of_visit? (by rw [loop, visited]; rfl) definitions
    rw [List.flatMap_cons, ← ih]
    exact written
  | case4 cursor past =>
    rw [List.drop_eq_nil_of_le (Nat.le_of_not_lt past), resolve_eq_flatMap, pieces_nil]
    rfl

/-- The references of a text, each with its arguments, are those that are visited. -/
theorem placeCalls_drop (text : Text) (cursor : Nat) :
    placeCalls cursor (pieces (text.drop cursor))
      = (visits (resolverSearches text cursor)).map fun visit =>
          (visit.start, visit.arguments text) := by
  have loop := visit?_loop [] text
  fun_induction resolverSearches text cursor with
  | case1 cursor within missing =>
    have free : hasReference (text.drop cursor) = false := by
      rw [visit?, nextCall?, Option.map_map, Option.map_eq_none_iff] at missing
      rw [hasReference, missing]
      rfl
    rw [pieces_of_referenceFree free]
    rfl
  | case2 cursor within start visited =>
    -- The visit is of a call that never closes, and its arguments are all that follows.
    obtain ⟨place, next, same⟩ := Option.map_eq_some_iff.mp visited
    obtain ⟨rfl, _⟩ := Visit.mk.inj same
    obtain ⟨⟨before, call⟩, found, rfl⟩ := Option.map_eq_some_iff.mp next
    obtain ⟨letters, opened, keyword, rfl, parts, _, body⟩ := exists_of_splitCall? found
    have unclosed : Bracket.round.split? opened = none := by
      have stops := @Loop.visit?_of_found ⟨[], text, cursor⟩ _ _ _ found
        (Text.isKeyword_length keyword)
      rw [loop, visited] at stops
      exact Option.map_eq_none_iff.mp stops.symm
    have behind : text.drop (cursor + before.length + 4) = (letters ++ '(' :: opened).drop 4 := by
      rw [← List.drop_drop, ← List.drop_drop, parts, List.drop_left]
    rw [pieces_of_unclosed found (by rw [body, unclosed]), placeCalls, placeCalls, ← behind]
    rfl
  | case3 cursor within start close visited ih =>
    obtain ⟨before, letters, arguments, after, meets⟩ :=
      @Loop.exists_meets ⟨[], text, cursor⟩ start close (by rw [loop, visited]; rfl)
    have whole : pieces (text.drop cursor)
        = .text before :: .call (letters ++ ['(']) arguments :: pieces after := meets.pieces
    have inside : text.extract (start + 4) close = arguments := meets.arguments_eq
    have rest : text.drop (close + 1) = after := meets.rest_behind
    have next : close + 1
        = cursor + before.length + (letters ++ ['(']).length + arguments.length + 1 := by
      rw [meets.closes, List.length_append, meets.three]
      rfl
    have first : start = cursor + before.length := meets.starts
    rw [rest] at ih
    rw [whole, placeCalls, placeCalls, ← next, ← first, ih, visits_cons_found, List.map_cons,
      ← inside]
    rfl
  | case4 cursor past =>
    rw [List.drop_eq_nil_of_le (Nat.le_of_not_lt past), pieces_nil]
    rfl

/-- No search of the resolver or of the check loses anything by its start in the middle of a text.
So both visit the same references, one behind the other, and the check reports each of them once. -/
theorem searches_lossless (text : Text) :
    (∀ search ∈ resolverSearches text 0 ++ checkSearches text 0,
      Lossless text search.cursor ∧ search.found = visit? text search.cursor) ∧
    visits (resolverSearches text 0) = visits (checkSearches text 0) ∧
    (visits (checkSearches text 0)).Pairwise Precedes ∧
    (∀ definitions resolving, resolve definitions resolving text
      = (resolverSearches text 0).flatMap (Search.write definitions resolving text)) ∧
    calls text = (visits (checkSearches text 0)).map (fun visit =>
      (visit.start, visit.arguments text)) ∧
    ('<' ∉ text → checkReferences text = (visits (checkSearches text 0)).map fun visit =>
      unresolved (lineAt text visit.start) (visit.arguments text)) := by
  have same := visits_resolverSearches text 0
  have visited : calls text = (visits (checkSearches text 0)).map (fun visit =>
      (visit.start, visit.arguments text)) := by
    rw [← same]
    exact placeCalls_drop text 0
  refine ⟨?_, same, ?_, fun definitions resolving => resolve_drop definitions resolving text 0,
    visited, ?_⟩
  · intro search listed
    have checked : search ∈ checkSearches text 0 := by
      obtain ⟨idle, _, whole⟩ := exists_checkSearches text 0
      rcases List.mem_append.mp listed with resolves | checks
      · exact whole ▸ List.mem_append_left idle resolves
      · exact checks
    exact lossless_of_mem_check (lossless_start text) checked
  · rw [← same]
    exact precedes_visits text 0
  · intro plain
    simp only [checkReferences, regions_of_free plain, List.flatMap_singleton, visited,
      List.map_map, Nat.zero_add]
    rfl

/-- A reference whose fallback holds a parenthesis in a string, and one that never closes; a string
and a backslash hide the other calls. -/
def resumed : Text :=
  r#"a{b: "\"var(" VAR(--a, ")" var(--b)) \var(--c);"#.toList ++
    '\n' :: r" c: 'var(--d)' var(--e}".toList

theorem checkSearches_resumed : checkSearches resumed 0 =
    [⟨0, some ⟨14, some 35⟩⟩, ⟨36, some ⟨63, none⟩⟩, ⟨resumed.length, none⟩] := by
  rw [checkSearches_of_closed (show visit? resumed 0 = some ⟨14, some 35⟩ by decide +kernel),
    checkSearches_of_unclosed (show visit? resumed 36 = some ⟨63, none⟩ by decide +kernel),
    checkSearches_of_missing (visit?_of_le (Nat.le_refl _))]

theorem searches_lossless_resumed :
    '<' ∉ resumed ∧ Closed (resumed.take 36) ∧
      (∀ place, 36 ≤ place → CallsAt resumed place → 63 ≤ place) ∧
      visits (resolverSearches resumed 0) = [⟨14, some 35⟩, ⟨63, none⟩] ∧
      checkReferences resumed = [unresolved 1 "--a, \")\" var(--b)".toList,
        unresolved 2 r"--e}".toList] := by
  have plain : '<' ∉ resumed := by decide
  obtain ⟨lossless, same, _, _, _, reported⟩ := searches_lossless resumed
  rw [checkSearches_resumed] at lossless same reported
  obtain ⟨resumes, _⟩ := lossless ⟨36, some ⟨63, none⟩⟩ (List.mem_append_right _ (by simp))
  have next : nextCall? resumed 36 = some 63 := by decide +kernel
  refine ⟨plain, resumes.code (by decide +kernel), ((resumes.first 63).mp next).2.2, same, ?_⟩
  rw [reported plain]
  rfl

end ThemeCss.Lint
