import ThemeCss.Proofs.Scan.Plain
import ThemeCss.Proofs.Variables.Within

/-!
# Resolving ends

Resolving is a loop over a text. It goes from one call to the next, and at each of them it may start
two further loops, over the definition of the name and over the fallback. The cursor of a loop only
moves forward. A loop over a definition has one name less at its disposal, and a loop over a
fallback has a shorter text. So no chain of loops goes on for ever, whatever the definitions say,
and a run of the loops that may go far enough ends with what the resolver gives.
-/
namespace ThemeCss

namespace Variables

open Scan

/-- A loop over a text: the names in progress, and where in the text it stands. -/
structure Loop where
  resolving : List Text
  value : Text
  cursor : Nat

namespace Loop

/-- A loop at the start of its text. -/
def begun (resolving : List Text) (value : Text) : Loop := ⟨resolving, value, 0⟩

/-- Where the next call starts and where it closes. There is none at the end of the text, where no
call is left, and where the next one never closes. -/
def visit? (loop : Loop) : Option (Nat × Nat) :=
  (nextCall? loop.value loop.cursor).bind fun start =>
    (Bracket.round.closing? loop.value (start + 3)).map fun close => (start, close)

/-- The text between two places. -/
def between (loop : Loop) (first last : Nat) : Text :=
  (loop.value.drop first).take (last - first)

/-- What stands between the parentheses of a call. -/
def arguments (loop : Loop) (start close : Nat) : Text := loop.between (start + 4) close

/-- The text behind the cursor. -/
def rest (loop : Loop) : Text := loop.value.drop loop.cursor

/-- The same loop behind a call that closes there. -/
def behind (loop : Loop) (close : Nat) : Loop := { loop with cursor := close + 1 }

/-- One iteration of a loop. -/
inductive Iterates : Loop → Loop → Prop where
  | behind {loop : Loop} {start close : Nat} (visited : loop.visit? = some (start, close)) :
      Iterates (loop.behind close) loop

/-- A loop is started inside another: over the definition of the name that is called, or over the
fallback if there is no definition or one that still holds a reference. -/
inductive Enters (definitions : Definitions) : Loop → Loop → Prop where
  | definition {loop : Loop} {start close : Nat} {raw : Text}
      (visited : loop.visit? = some (start, close))
      (defined : usable? definitions loop.resolving (calledName (loop.arguments start close))
        = some raw) :
      Enters definitions
        (begun (calledName (loop.arguments start close) :: loop.resolving) raw) loop
  | fallback {loop : Loop} {start close : Nat} {fallback : Text}
      (visited : loop.visit? = some (start, close))
      (given : calledFallback? (loop.arguments start close) = some fallback)
      (unresolved : ∀ raw,
        usable? definitions loop.resolving (calledName (loop.arguments start close)) = some raw →
        hasReference (resolve definitions
          (calledName (loop.arguments start close) :: loop.resolving) raw) = true) :
      Enters definitions (begun loop.resolving fallback) loop

/-- The defined names not in progress, and the length of the text. -/
def rank (definitions : Definitions) (loop : Loop) : Nat × Nat :=
  ((available definitions loop.resolving).length, loop.value.length)

/-- Runs a loop with those inside it, each iteration and each loop inside with one step less. -/
def runWithin (definitions : Definitions) : Nat → Loop → Option Text
  | 0, _ => none
  | steps + 1, loop =>
    match loop.visit? with
    | none => some loop.rest
    | some (start, close) => do
      let replacement ← pieceWithin
        (fun resolving value => runWithin definitions steps (begun resolving value)) definitions
        loop.resolving (.call callWord (loop.arguments start close))
      let after ← runWithin definitions steps (loop.behind close)
      return loop.between loop.cursor start ++ replacement ++ after

/-! ### What a loop comes to -/

/-- The first call of a text, with what stands before it, inside it and behind it. -/
theorem pieces_of_split {text before letters opened arguments after : Text}
    (found : splitCall? .code text = some (before, letters ++ '(' :: opened))
    (three : letters.length = 3)
    (closed : Bracket.round.split? opened = some (arguments, after)) :
    pieces text = .text before :: .call (letters ++ ['(']) arguments :: pieces after := by
  obtain ⟨_, _, keyword, same, _, head, body⟩ := exists_of_splitCall? found
  obtain ⟨rfl, rest⟩ := List.append_inj same (three.trans (Text.isKeyword_length keyword).symm)
  obtain rfl := List.tail_eq_of_cons_eq rest
  rw [← body] at closed
  rw [pieces_of_closed found closed, head]

variable {loop : Loop} {start close : Nat}

theorem visit?_of_missing (missing : splitCall? .code loop.rest = none) : loop.visit? = none := by
  rw [rest] at missing
  rw [visit?, nextCall?, missing]
  rfl

/-- A loop goes to the first call in its rest if that closes. -/
theorem visit?_of_found {before letters opened : Text}
    (found : splitCall? .code loop.rest = some (before, letters ++ '(' :: opened))
    (three : letters.length = 3) :
    loop.visit? = (Bracket.round.split? opened).map fun (inside, _) =>
      (loop.cursor + before.length, loop.cursor + before.length + 4 + inside.length) := by
  rw [rest] at found
  have parts := (splitCall?_sound found).1
  -- The parenthesis of the call stands three letters behind its start.
  have opens : loop.value.drop (loop.cursor + before.length + 3) = '(' :: opened := by
    rw [← List.drop_drop, ← List.drop_drop, parts, List.drop_left, ← three, List.drop_left]
  rw [visit?, nextCall?, found, Option.map_some, Option.bind_some,
    Bracket.closing?_of_opener Bracket.round_sound opens, Option.map_map]
  rfl

/-- What a loop meets up to the next call and behind it, and where that call starts and closes. -/
structure Meets (loop : Loop) (start close : Nat) (before letters arguments after : Text) :
    Prop where
  text : loop.rest = before ++ letters ++ '(' :: (arguments ++ ')' :: after)
  three : letters.length = 3
  starts : start = loop.cursor + before.length
  closes : close = loop.cursor + before.length + 4 + arguments.length
  pieces : pieces loop.rest
    = .text before :: .call (letters ++ ['(']) arguments :: Scan.pieces after

theorem exists_meets (visited : loop.visit? = some (start, close)) :
    ∃ before letters arguments after, loop.Meets start close before letters arguments after := by
  cases found : splitCall? .code loop.rest with
  | none =>
    rw [visit?_of_missing found] at visited
    cases visited
  | some parts =>
    obtain ⟨before, call⟩ := parts
    obtain ⟨letters, opened, keyword, rfl, parts, _⟩ := exists_of_splitCall? found
    have three : letters.length = 3 := Text.isKeyword_length keyword
    rw [visit?_of_found found three] at visited
    obtain ⟨⟨arguments, after⟩, closed, same⟩ := Option.map_eq_some_iff.mp visited
    obtain ⟨rfl, rfl⟩ := Prod.mk.inj same
    refine ⟨before, letters, arguments, after, ?_, three, rfl, rfl,
      pieces_of_split found three closed⟩
    rw [parts, Bracket.splitFrom?_sound closed, List.append_assoc]
    rfl

namespace Meets

variable {before letters arguments after : Text}
  (meets : loop.Meets start close before letters arguments after)
include meets

/-- The text from a place behind the cursor on. -/
theorem drop (n : Nat) : loop.value.drop (loop.cursor + n)
    = (before ++ letters ++ '(' :: (arguments ++ ')' :: after)).drop n := by
  rw [← meets.text, rest, List.drop_drop]

theorem between_eq : loop.between loop.cursor start = before := by
  have whole := meets.text
  rw [rest] at whole
  rw [Loop.between, meets.starts, whole]
  simp

theorem arguments_eq : loop.arguments start close = arguments := by
  have size : (before ++ letters ++ ['(']).length = before.length + 4 := by
    simp [meets.three]
  have whole : before ++ letters ++ '(' :: (arguments ++ ')' :: after)
      = (before ++ letters ++ ['(']) ++ (arguments ++ ')' :: after) := by simp
  rw [Loop.arguments, Loop.between, meets.closes, meets.starts, Nat.add_assoc _ _ 4, meets.drop,
    whole, ← size, List.drop_left]
  simp

theorem rest_behind : (loop.behind close).rest = after := by
  have size : (before ++ letters ++ '(' :: (arguments ++ [')'])).length
      = before.length + 4 + arguments.length + 1 := by
    simp only [List.length_append, List.length_cons, List.length_nil, meets.three]
    omega
  have whole : before ++ letters ++ '(' :: (arguments ++ ')' :: after)
      = before ++ letters ++ '(' :: (arguments ++ [')']) ++ after := by simp
  have place : close + 1 = loop.cursor + (before.length + 4 + arguments.length + 1) := by
    rw [meets.closes]
    omega
  rw [rest, behind, place, meets.drop, whole, ← size, List.drop_left]

/-- A call has its place between the cursor and the end of the text. -/
theorem bounds : loop.cursor ≤ start ∧ start < close ∧ close < loop.value.length ∧
    arguments.length < loop.value.length - loop.cursor := by
  have size := congrArg List.length meets.text
  have three := meets.three
  have starts := meets.starts
  have closes := meets.closes
  simp only [rest, List.length_drop, List.length_append, List.length_cons] at size
  omega

end Meets

/-- Where there is no call to go to, nothing is replaced. -/
theorem resolve_of_visit?_eq_none (missing : loop.visit? = none) (definitions : Definitions) :
    resolve definitions loop.resolving loop.rest = loop.rest := by
  have same : ∀ piece ∈ pieces loop.rest,
      resolvePiece definitions loop.resolving piece = piece.write := by
    cases found : splitCall? .code loop.rest with
    | none =>
      rw [pieces_of_none found]
      simp [resolvePiece, Piece.write]
    | some cut =>
      cases closed : Bracket.round.split? (cut.2.drop 4) with
      | none =>
        rw [pieces_of_unclosed found closed]
        simp [resolvePiece, Piece.write]
      | some parts =>
        -- The loop would go to this call.
        obtain ⟨before, call⟩ := cut
        obtain ⟨letters, opened, keyword, rfl, _, _, body⟩ := exists_of_splitCall? found
        have three : letters.length = 3 := Text.isKeyword_length keyword
        rw [visit?_of_found found three, ← body, closed] at missing
        cases missing
  conv => rhs; rw [← flatMap_write_pieces loop.rest]
  rw [resolve_eq_flatMap, List.flatMap_def, List.flatMap_def, List.map_congr_left same]

/-- At a call a loop writes what stands before it and what stands for it, and goes on behind it. -/
theorem resolve_of_visit? (visited : loop.visit? = some (start, close))
    (definitions : Definitions) :
    resolve definitions loop.resolving loop.rest
      = loop.between loop.cursor start
        ++ resolvePiece definitions loop.resolving (.call callWord (loop.arguments start close))
        ++ resolve definitions loop.resolving (loop.behind close).rest := by
  obtain ⟨before, letters, arguments, after, meets⟩ := exists_meets visited
  rw [meets.between_eq, meets.arguments_eq, meets.rest_behind, resolve_eq_flatMap, meets.pieces,
    List.flatMap_cons, List.flatMap_cons, ← resolve_eq_flatMap, List.append_assoc]
  rfl

/-! ### Descent -/

theorem Iterates.forward {after before : Loop} (iterates : Iterates after before) :
    after.resolving = before.resolving ∧ after.value = before.value ∧
      before.cursor < after.cursor ∧ after.cursor ≤ after.value.length := by
  cases iterates with
  | behind visited =>
    obtain ⟨_, _, _, _, meets⟩ := exists_meets visited
    obtain ⟨ahead, _, inside, _⟩ := meets.bounds
    exact ⟨rfl, rfl, by change _ < _ + 1; omega, inside⟩

theorem Enters.descends {definitions : Definitions} {inner outer : Loop}
    (enters : Enters definitions inner outer) :
    Prod.Lex (· < ·) (· < ·) (inner.rank definitions) (outer.rank definitions) := by
  cases enters with
  | definition visited defined => exact .left _ _ (available_length_lt defined)
  | @fallback _ _ _ fallback visited given =>
    obtain ⟨_, _, arguments, _, meets⟩ := exists_meets visited
    have bounds := meets.bounds
    have short := fallback_length_le given
    rw [meets.arguments_eq] at short
    exact .right _ (by simp only [begun]; omega)

/-- A loop goes on or starts another one. -/
def Continues (definitions : Definitions) (after before : Loop) : Prop :=
  Iterates after before ∨ Enters definitions after before

/-- No loop goes on for ever, with those that it starts. -/
theorem wellFounded_continues (definitions : Definitions) :
    WellFounded (Continues definitions) := by
  -- Behind the rank, what is left of the text counts.
  have order := InvImage.wf
    (fun loop : Loop => (loop.rank definitions, loop.value.length - loop.cursor))
    (Prod.lex (Prod.lex Nat.lt_wfRel Nat.lt_wfRel) Nat.lt_wfRel).wf
  refine Subrelation.wf ?_ order
  rintro after before (iterates | enters)
  · obtain ⟨resolving, value, forward, inside⟩ := iterates.forward
    have same : after.rank definitions = before.rank definitions := by
      rw [rank, rank, resolving, value]
    simp only [InvImage, same]
    exact .right _ (by rw [← value]; change _ < _; omega)
  · exact .left _ _ enters.descends

/-! ### A run that goes far enough -/

/-- The length of the longest definition. -/
def longest (definitions : Definitions) : Nat :=
  definitions.foldr (fun entry most => max entry.2.length most) 0

theorem length_le_longest {definitions : Definitions} {entry : Text × Text}
    (member : entry ∈ definitions) : entry.2.length ≤ longest definitions := by
  induction definitions with
  | nil => cases member
  | cons first rest ih =>
    rw [longest, List.foldr_cons]
    rcases List.mem_cons.mp member with rfl | behind
    · exact Nat.le_max_left ..
    · exact Nat.le_trans (ih behind) (Nat.le_max_right ..)

/-- How far a run of a loop may have to go: over what is left of its text, and over a definition for
each name it has at its disposal. -/
def reach (definitions : Definitions) (loop : Loop) : Nat :=
  (loop.value.length - loop.cursor + 1)
    + (available definitions loop.resolving).length * (longest definitions + 1)

section reach

variable {definitions : Definitions} {before letters arguments after : Text}

theorem reach_behind (meets : loop.Meets start close before letters arguments after) :
    (loop.behind close).reach definitions < loop.reach definitions := by
  obtain ⟨ahead, forward, inside, _⟩ := meets.bounds
  have shorter : loop.value.length - (close + 1) < loop.value.length - loop.cursor := by omega
  exact Nat.add_lt_add_right (Nat.add_lt_add_right shorter 1) _

theorem reach_definition {name raw : Text}
    (defined : usable? definitions loop.resolving name = some raw) :
    (begun (name :: loop.resolving) raw).reach definitions < loop.reach definitions := by
  obtain ⟨_, found⟩ : _ ∧ definitions.find? name = some raw := by
    rw [usable?] at defined
    split at defined
    next fresh => exact ⟨fresh, defined⟩
    next => cases defined
  have size : raw.length ≤ longest definitions :=
    length_le_longest (Entries.mem_of_find?_eq_some found)
  have fewer := Nat.mul_le_mul_right (longest definitions + 1) (available_length_lt defined)
  rw [Nat.succ_mul] at fewer
  simp only [reach, begun]
  omega

theorem reach_fallback {fallback : Text}
    (meets : loop.Meets start close before letters arguments after)
    (given : calledFallback? arguments = some fallback) :
    (begun loop.resolving fallback).reach definitions < loop.reach definitions := by
  have short := fallback_length_le given
  obtain ⟨_, _, _, room⟩ := meets.bounds
  simp only [reach, begun]
  omega

end reach

/-- What stands for a call, if the loops inside it end with what the resolver gives. -/
theorem pieceWithin_of_ends {inside : List Text → Text → Option Text} {definitions : Definitions}
    {resolving : List Text} {head arguments : Text}
    (definition : ∀ raw, usable? definitions resolving (calledName arguments) = some raw →
      inside (calledName arguments :: resolving) raw
        = some (resolve definitions (calledName arguments :: resolving) raw))
    (fallback : ∀ fallback, calledFallback? arguments = some fallback →
      inside resolving fallback = some (resolve definitions resolving fallback)) :
    pieceWithin inside definitions resolving (.call head arguments)
      = some (resolvePiece definitions resolving (.call head arguments)) := by
  have spare : ∀ otherwise, fallbackWithin inside resolving arguments otherwise
      = some ((calledFallback? arguments).elim otherwise (resolve definitions resolving)) := by
    intro otherwise
    rw [fallbackWithin]
    cases given : calledFallback? arguments with
    | none => rfl
    | some text => exact fallback text given
  rw [pieceWithin, resolvePiece]
  cases defined : usable? definitions resolving (calledName arguments) with
  | none =>
    simp only [spare]
    cases calledFallback? arguments <;> rfl
  | some raw =>
    simp only [definition raw defined, Option.bind_some, spare]
    cases calledFallback? arguments <;> split <;> rfl

theorem runWithin_of_reach {definitions : Definitions} {steps : Nat} {loop : Loop}
    (far : loop.reach definitions ≤ steps) :
    runWithin definitions steps loop = some (resolve definitions loop.resolving loop.rest) := by
  induction steps generalizing loop with
  | zero =>
    rw [reach] at far
    omega
  | succ steps ih =>
    rw [runWithin]
    cases visited : loop.visit? with
    | none => rw [resolve_of_visit?_eq_none visited]
    | some places =>
      obtain ⟨start, close⟩ := places
      obtain ⟨before, letters, arguments, after, meets⟩ := exists_meets visited
      -- Every loop that a run goes on with has less to go.
      have within : ∀ {inner : Loop}, inner.reach definitions < loop.reach definitions →
          runWithin definitions steps inner
            = some (resolve definitions inner.resolving inner.rest) := by
        intro inner less
        exact ih (by omega)
      have replaced : pieceWithin
            (fun resolving value => runWithin definitions steps (begun resolving value)) definitions
            loop.resolving (.call callWord (loop.arguments start close))
          = some (resolvePiece definitions loop.resolving
            (.call callWord (loop.arguments start close))) :=
        pieceWithin_of_ends (fun raw defined => within (reach_definition defined))
          fun fallback given => within (reach_fallback meets (meets.arguments_eq ▸ given))
      simp only [replaced, within (reach_behind meets), resolve_of_visit? visited definitions]
      rfl

/-- Resolving ends, for all definitions, cyclic or malformed, all names in progress and all texts.
An iteration moves the cursor strictly forward within its text; a loop inside another has fewer
defined names at its disposal, or as many and a shorter text; no chain of loops goes on for ever;
and a run that may go far enough gives what the resolver gives. -/
theorem resolving_ends (definitions : Definitions) :
    (∀ {after before : Loop}, Iterates after before →
      after.resolving = before.resolving ∧ after.value = before.value ∧
        before.cursor < after.cursor ∧ after.cursor ≤ after.value.length) ∧
    (∀ {inner outer : Loop}, Enters definitions inner outer →
      Prod.Lex (· < ·) (· < ·) (inner.rank definitions) (outer.rank definitions)) ∧
    WellFounded (Continues definitions) ∧
    ∀ resolving value steps, (begun resolving value).reach definitions ≤ steps →
      runWithin definitions steps (begun resolving value)
        = some (resolve definitions resolving value) :=
  ⟨Iterates.forward, Enters.descends, wellFounded_continues definitions,
    fun _ _ _ far => runWithin_of_reach far⟩

/-- A cycle through two definitions and a fallback, with a call that never closes behind it. -/
example : runWithin
    [("--a".toList, "var(--b, var(--a, 1)) var(".toList), ("--b".toList, "var(--a)".toList)] 9
    (begun [] "x var(--a, var(--a)) y".toList) = some "x 1 var( y".toList := by decide +kernel

end Loop

end Variables
end ThemeCss
