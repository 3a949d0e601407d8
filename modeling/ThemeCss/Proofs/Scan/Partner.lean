import ThemeCss.Proofs.Scan.Balance

/-!
# Partners

The partner of an opening bracket is where as many brackets have closed as opened for the first
time, counting those that a scan from it reads in code. Up to there more have opened than closed, so
the search, which keeps the difference, cannot end earlier, and it ends in code. It looks at nothing
in front of the opening bracket and nothing behind the closing one.
-/
namespace ThemeCss.Scan

/-- The characters that a scan reads in code: outside strings, and not behind a backslash. -/
def readInCode (mode : Mode) : Text → Text
  | [] => []
  | c :: rest =>
    if mode.isCode then c :: readInCode (mode.step c) rest else readInCode (mode.step c) rest

theorem readInCode_append (mode : Mode) (first second : Text) :
    readInCode mode (first ++ second)
      = readInCode mode first ++ readInCode (mode.after first) second := by
  induction first generalizing mode with
  | nil => rfl
  | cons c rest ih =>
    rw [List.cons_append, readInCode, readInCode, ih, Mode.after_cons]
    split <;> rfl

namespace Bracket

variable {bracket : Bracket}

/-- The opening brackets that a scan counts in a text. -/
def opened (bracket : Bracket) (mode : Mode) (text : Text) : Nat :=
  (readInCode mode text).count bracket.opener

/-- The closing brackets that a scan counts in a text. -/
def closed (bracket : Bracket) (mode : Mode) (text : Text) : Nat :=
  (readInCode mode text).count bracket.closer

theorem opened_cons (bracket : Bracket) (mode : Mode) (c : Char) (rest : Text) :
    bracket.opened mode (c :: rest)
      = bracket.opened (mode.step c) rest + if mode.isCode ∧ c = bracket.opener then 1 else 0 := by
  rw [opened, readInCode]
  by_cases code : mode.isCode = true <;> simp [code, opened, List.count_cons]

theorem closed_cons (bracket : Bracket) (mode : Mode) (c : Char) (rest : Text) :
    bracket.closed mode (c :: rest)
      = bracket.closed (mode.step c) rest + if mode.isCode ∧ c = bracket.closer then 1 else 0 := by
  rw [closed, readInCode]
  by_cases code : mode.isCode = true <;> simp [code, closed, List.count_cons]

/-- The depth behind a text is the one before it, with what opened and without what closed. -/
theorem opened_of_depth? (sound : bracket.Sound) {depth reached : Nat} {mode : Mode} {text : Text}
    (counted : bracket.depth? depth mode text = some reached) :
    depth + bracket.opened mode text = reached + bracket.closed mode text := by
  have counts := counts_of_depth? counted
  clear counted
  induction counts with
  | nil => rfl
  | opens _ ih =>
    rw [opened_cons, closed_cons, if_pos ⟨rfl, rfl⟩, if_neg fun closes => sound.distinct closes.2]
    omega
  | closes apart _ ih =>
    rw [opened_cons, closed_cons, if_neg fun opens => apart opens.2, if_pos ⟨rfl, rfl⟩]
    omega
  | passes opens closes _ ih =>
    rw [opened_cons, closed_cons, if_neg opens, if_neg closes]
    exact ih

/-- In front of the partner more brackets have opened than closed. -/
theorem closed_lt_of_splitFrom? (sound : bracket.Sound) {depth : Nat} {mode : Mode}
    {text inside after : Text}
    (found : bracket.splitFrom? (depth + 1 : Nat) mode text = some (inside, after)) {n : Nat}
    (before : n ≤ inside.length) :
    bracket.closed mode (text.take n) < depth + 1 + bracket.opened mode (text.take n) := by
  have counted := (depth?_of_splitFrom? sound found).1
  rw [splitFrom?_sound found, List.take_append_of_le_length before]
  rw [← List.take_append_drop n inside, depth?_append] at counted
  obtain ⟨reached, start, _⟩ := Option.bind_eq_some_iff.mp counted
  have level := opened_of_depth? sound start
  omega

/-- At the partner as many brackets have closed as opened. -/
theorem closed_eq_of_splitFrom? (sound : bracket.Sound) {depth : Nat} {mode : Mode}
    {text inside after : Text}
    (found : bracket.splitFrom? (depth + 1 : Nat) mode text = some (inside, after)) :
    bracket.closed mode (text.take (inside.length + 1))
      = depth + 1 + bracket.opened mode (text.take (inside.length + 1)) := by
  obtain ⟨counted, code⟩ := depth?_of_splitFrom? sound found
  have level := opened_of_depth? sound counted
  have covered : text.take (inside.length + 1) = inside ++ [bracket.closer] := by
    rw [splitFrom?_sound found, List.take_length_add_append]
    rfl
  have last : readInCode .code [bracket.closer] = [bracket.closer] := rfl
  rw [opened, closed] at level
  rw [covered, opened, closed, readInCode_append, code, last, List.count_append, List.count_append,
    List.count_singleton_self, List.count_singleton]
  simp only [beq_iff_eq, sound.distinct.symm, if_false]
  omega

/-- Without a partner more brackets have opened than closed everywhere. -/
theorem closed_lt_of_splitFrom?_eq_none (sound : bracket.Sound) {depth : Nat} {mode : Mode}
    {text : Text} (unclosed : bracket.splitFrom? (depth + 1 : Nat) mode text = none) (n : Nat) :
    bracket.closed mode (text.take n) < depth + 1 + bracket.opened mode (text.take n) := by
  induction text generalizing depth mode n with
  | nil =>
    rw [List.take_nil]
    exact Nat.succ_pos _
  | cons c rest ih =>
    cases n with
    | zero => exact Nat.succ_pos _
    | succ n =>
      rw [List.take_succ_cons, opened_cons, closed_cons]
      by_cases opens : mode.isCode ∧ c = bracket.opener
      · have other : ¬(mode.isCode = true ∧ c = bracket.closer) :=
          fun closes => sound.distinct (opens.2.symm.trans closes.2)
        rw [splitFrom?_opens opens, Option.map_eq_none_iff] at unclosed
        have below := ih unclosed n
        rw [if_pos opens, if_neg other]
        omega
      · by_cases closes : mode.isCode ∧ c = bracket.closer
        · rw [splitFrom?_closes sound closes] at unclosed
          cases depth with
          | zero => cases unclosed
          | succ depth =>
            rw [if_neg (by omega), Option.map_eq_none_iff] at unclosed
            have below := ih unclosed n
            rw [if_neg opens, if_pos closes]
            omega
        · rw [splitFrom?_passes opens closes, Option.map_eq_none_iff] at unclosed
          have below := ih unclosed n
          rw [if_neg opens, if_neg closes]
          exact below

/-- Behind an opening bracket without a partner the count stays above what is open around. -/
theorem lt_of_splitFrom?_eq_none (sound : bracket.Sound) {depth more reached : Nat} {mode : Mode}
    {text : Text} (unclosed : bracket.splitFrom? (depth + 1 : Nat) mode text = none)
    (counted : bracket.depth? (depth + 1 + more) mode text = some reached) : more < reached := by
  have below := closed_lt_of_splitFrom?_eq_none sound unclosed text.length
  have level := opened_of_depth? sound counted
  rw [List.take_length] at below
  omega

/-- A closing bracket stands at the place, and from `start` up to it as many brackets have closed as
opened. -/
structure Evens (bracket : Bracket) (text : Text) (start place : Nat) : Prop where
  ahead : start ≤ place
  closes : text[place]? = some bracket.closer
  even : bracket.closed .code (text.extract start (place + 1))
    = bracket.opened .code (text.extract start (place + 1))

section partner

variable {text after : Text} {start : Nat} (opens : text.drop start = bracket.opener :: after)
include opens

theorem getElem?_behind (n : Nat) : text[start + 1 + n]? = after[n]? := by
  have same := congrArg (·[n + 1]?) opens
  simpa [Nat.add_assoc, Nat.add_comm 1 n] using same

theorem extract_behind (n : Nat) :
    text.extract start (start + 1 + n) = bracket.opener :: after.take n := by
  have size : start + 1 + n - start = n + 1 := by omega
  rw [List.extract_eq_take_drop, opens, size, List.take_succ_cons]

variable (sound : bracket.Sound)
include sound

theorem opened_extract (n : Nat) : bracket.opened .code (text.extract start (start + 1 + n))
    = 1 + bracket.opened .code (after.take n) := by
  rw [extract_behind opens, opened_cons, if_pos ⟨rfl, rfl⟩, Mode.step_code_ordinary sound.opens,
    Nat.add_comm]

theorem closed_extract (n : Nat) : bracket.closed .code (text.extract start (start + 1 + n))
    = bracket.closed .code (after.take n) := by
  rw [extract_behind opens, closed_cons, if_neg (fun closes => sound.distinct closes.2),
    Mode.step_code_ordinary sound.opens, Nat.add_zero]

/-- Closing brackets make up for the opening one in what stands behind it. -/
theorem evens_iff {place : Nat} : bracket.Evens text start place ↔
    ∃ n, place = start + 1 + n ∧ after[n]? = some bracket.closer ∧
      bracket.closed .code (after.take (n + 1))
        = 1 + bracket.opened .code (after.take (n + 1)) := by
  have behind : ∀ n, start + 1 + n + 1 = start + 1 + (n + 1) := fun n => rfl
  constructor
  · rintro ⟨ahead, closes, even⟩
    -- At its own place stands the opening bracket.
    have other : place ≠ start := by
      rintro rfl
      have first := congrArg (·[0]?) opens
      simp only [List.getElem?_drop, Nat.add_zero, List.getElem?_cons_zero] at first
      exact sound.distinct (Option.some.inj (first.symm.trans closes))
    obtain ⟨n, rfl⟩ := Nat.exists_eq_add_of_le (show start + 1 ≤ place by omega)
    rw [getElem?_behind opens] at closes
    rw [behind, closed_extract opens sound, opened_extract opens sound] at even
    exact ⟨n, rfl, closes, even⟩
  · rintro ⟨n, rfl, closes, even⟩
    refine ⟨by omega, (getElem?_behind opens n).trans closes, ?_⟩
    rw [behind, closed_extract opens sound, opened_extract opens sound]
    exact even

theorem not_evens_of_unclosed (unclosed : bracket.split? after = none) (place : Nat) :
    ¬ bracket.Evens text start place := by
  rw [evens_iff opens sound]
  rintro ⟨n, _, _, even⟩
  have below := @closed_lt_of_splitFrom?_eq_none _ sound 0 _ _ unclosed (n + 1)
  omega

section found

variable {inside rest : Text} (found : bracket.split? after = some (inside, rest))
include found

theorem evens_partner : bracket.Evens text start (start + 1 + inside.length) := by
  rw [evens_iff opens sound]
  have even := @closed_eq_of_splitFrom? _ sound 0 _ _ _ _ found
  refine ⟨inside.length, rfl, ?_, by omega⟩
  rw [splitFrom?_sound found, List.getElem?_append_right (Nat.le_refl _), Nat.sub_self]
  rfl

/-- More brackets have opened than closed up to the partner. -/
theorem closed_lt_opened {stop : Nat} (ahead : start < stop)
    (before : stop ≤ start + 1 + inside.length) :
    bracket.closed .code (text.extract start stop)
      < bracket.opened .code (text.extract start stop) := by
  obtain ⟨n, rfl⟩ := Nat.exists_eq_add_of_le (show start + 1 ≤ stop by omega)
  rw [closed_extract opens sound, opened_extract opens sound]
  have below := @closed_lt_of_splitFrom? _ sound 0 _ _ _ _ found n (by omega)
  omega

theorem partner_le {place : Nat} (evens : bracket.Evens text start place) :
    start + 1 + inside.length ≤ place := by
  by_cases before : place + 1 ≤ start + 1 + inside.length
  · have ahead : start < place + 1 := Nat.lt_succ_of_le evens.ahead
    exact absurd evens.even (Nat.ne_of_lt (closed_lt_opened opens sound found ahead before))
  · omega

omit sound in
/-- From the opening bracket to its partner. -/
theorem extract_partner : text.extract start (start + 1 + inside.length + 1)
    = bracket.opener :: (inside ++ [bracket.closer]) := by
  rw [Nat.add_assoc _ inside.length 1, extract_behind opens, splitFrom?_sound found,
    List.take_length_add_append]
  rfl

theorem closed_extract_partner : Closed (text.extract start (start + 1 + inside.length + 1)) := by
  obtain ⟨_, closed⟩ := balanced_of_split? sound found
  rw [extract_partner opens found]
  exact .cons sound.opens (closed.append (.cons sound.closes closed_nil))

theorem closing?_between (front later : Text) :
    bracket.closing? (front ++ text.extract start (start + 1 + inside.length + 1) ++ later)
      front.length = some (front.length + 1 + inside.length) := by
  obtain ⟨balanced, closed⟩ := balanced_of_split? sound found
  have opened : (front ++ text.extract start (start + 1 + inside.length + 1) ++ later).drop
      front.length = bracket.opener :: (inside ++ bracket.closer :: later) := by
    rw [extract_partner opens found, List.append_assoc, List.drop_left]
    simp
  rw [closing?_of_opener sound opened, split?_of_balanced sound closed balanced]
  rfl

end found

/-- The text from an opening bracket to its partner is closed. -/
theorem closed_of_closing? {place : Nat} (found : bracket.closing? text start = some place) :
    start < place ∧ place < text.length ∧ Closed (text.extract start (place + 1)) := by
  rw [closing?_of_opener sound opens] at found
  obtain ⟨⟨inside, rest⟩, partner, same⟩ := Option.map_eq_some_iff.mp found
  obtain rfl : start + 1 + inside.length = place := same
  have closes := (evens_partner opens sound partner).closes
  obtain ⟨within, _⟩ := List.getElem?_eq_some_iff.mp closes
  exact ⟨by omega, within, closed_extract_partner opens sound partner⟩

end partner

/-- A search looks at nothing in front of the place it starts at. -/
theorem closing?_shift (front text : Text) (start : Nat) :
    bracket.closing? (front ++ text.drop start) front.length
      = (bracket.closing? text start).map fun place => front.length + (place - start) := by
  rw [closing?, closing?, List.drop_left, Option.map_map]
  congr 1
  funext parts
  simp only [Function.comp]
  omega

/-- The search from an opening bracket finds its partner: the first place at which as many brackets
have closed as opened. Up to there, outside strings and backslashes, more have opened than closed,
and the scan is in code behind it. What stands in front of the opening bracket and behind its
partner makes no difference; without a partner, no such place is there. -/
theorem closing?_partner (either : bracket = round ∨ bracket = curly) {text : Text} {start : Nat}
    (opens : text[start]? = some bracket.opener) :
    (bracket.closing? text start = none ↔ ∀ place, ¬ bracket.Evens text start place) ∧
    (∀ place, bracket.closing? text start = some place ↔
      bracket.Evens text start place ∧
        ∀ other, bracket.Evens text start other → place ≤ other) ∧
    (∀ place, bracket.closing? text start = some place →
      Closed (text.extract start (place + 1)) ∧
      (∀ stop, start < stop → stop ≤ place →
        bracket.closed .code (text.extract start stop)
          < bracket.opened .code (text.extract start stop)) ∧
      ∀ front later, bracket.closing? (front ++ text.extract start (place + 1) ++ later)
        front.length = some (front.length + (place - start))) ∧
    ∀ front, bracket.closing? (front ++ text.drop start) front.length
      = (bracket.closing? text start).map fun place => front.length + (place - start) := by
  have sound : bracket.Sound := by
    rcases either with rfl | rfl
    · exact round_sound
    · exact curly_sound
  obtain ⟨within, first⟩ := List.getElem?_eq_some_iff.mp opens
  have behind : text.drop start = bracket.opener :: text.drop (start + 1) := by
    rw [List.drop_eq_getElem_cons within, first]
  have search := closing?_of_opener sound behind
  cases found : bracket.split? (text.drop (start + 1)) with
  | none =>
    rw [found, Option.map_none] at search
    have never := not_evens_of_unclosed behind sound found
    simp only [search, reduceCtorEq, false_iff, false_imp_iff, true_iff, implies_true, true_and]
    refine ⟨never, fun place least => never place least.1, ?_⟩
    intro front
    rw [closing?_shift, search]
  | some parts =>
    obtain ⟨inside, rest⟩ := parts
    replace search : bracket.closing? text start = some (start + 1 + inside.length) := by
      rw [search, found, Option.map_some]
    -- The counts are even first at the partner; the other parts follow from the cut it makes.
    have evens := evens_partner behind sound found
    have least := fun place => @partner_le _ _ _ _ behind sound _ _ found place
    refine ⟨?_, ?_, ?_, fun front => closing?_shift front text start⟩
    · simp only [search, reduceCtorEq, false_iff]
      exact fun never => never _ evens
    · intro place
      rw [search, Option.some.injEq]
      constructor
      · rintro rfl
        exact ⟨evens, fun other => least other⟩
      · rintro ⟨other, first⟩
        exact Nat.le_antisymm (least place other) (first _ evens)
    · intro place partner
      obtain rfl := Option.some.inj (search.symm.trans partner)
      refine ⟨closed_extract_partner behind sound found, ?_, ?_⟩
      · exact fun stop ahead before => closed_lt_opened behind sound found ahead before
      · intro front later
        rw [closing?_between behind sound found]
        congr 1
        omega

/-- Parentheses in a string, behind an escaped quote and behind a backslash have no part in it. -/
def guarded : Text := "x(\")\\\"(\" \\) (y)) z)".toList

theorem closing?_partner_guarded :
    (round = round ∨ round = curly) ∧ guarded[1]? = some '(' ∧
      round.closing? guarded 1 = some 15 ∧ round.Evens guarded 1 15 ∧
      (∀ other, round.Evens guarded 1 other → 15 ≤ other) ∧
      Closed (guarded.extract 1 16) ∧
      round.closing? (guarded.extract 1 16 ++ "'".toList) 0 = some 14 := by
  have found : round.closing? guarded 1 = some 15 := by decide
  obtain ⟨_, least, partner, _⟩ :=
    closing?_partner (Or.inl rfl) (show guarded[1]? = some round.opener by decide)
  obtain ⟨closed, _, unchanged⟩ := partner 15 found
  obtain ⟨evens, first⟩ := (least 15).mp found
  exact ⟨.inl rfl, by decide, found, evens, first, closed, unchanged [] _⟩

end Bracket
end ThemeCss.Scan
