import ThemeCss.Proofs.Scan.Components
import ThemeCss.Proofs.Scan.Partner
import ThemeCss.Proofs.Variables.Retained

/-!
# Sheltered semicolons

A semicolon in a fallback stands between the parentheses of its call, and comes into the open when
the fallback takes the place of the call. It comes into the open too when texts that are put side by
side make a new call with a fallback of its own. Where neither can happen in the definitions and the
value, what comes of the value is not cut.
-/
namespace ThemeCss

namespace Scan

/-! ### Semicolons in parentheses -/

/-- Inside a parenthesis nothing is cut as long as what closes was opened there. -/
theorem solid_succ {depth reached : Nat} {mode : Mode} {text : Text}
    (counted : Bracket.round.depth? depth mode text = some reached) :
    solid (depth + 1) mode text = true := by
  induction text generalizing depth mode with
  | nil => rfl
  | cons c rest ih =>
    have deeper : nesting (depth + 1) mode.isCode c = nesting depth mode.isCode c + 1 := by
      cases Bracket.counts_of_depth? counted with
      | opens => rfl
      | closes => rfl
      | passes opens closes => rw [nesting_of_passes opens closes, nesting_of_passes opens closes]
    rw [solid, deeper, ih ((depth?_cons counted rest).symm.trans counted)]
    simp

/-- Balanced text that is not cut in the open is cut nowhere. -/
theorem solid_of_balanced {text : Text} (balanced : Bracket.round.Balanced text)
    (uncut : solid 0 .code text = true) : ∀ depth, solid depth .code text = true
  | 0 => uncut
  | depth + 1 => solid_succ (balanced.depth depth)

end Scan

namespace Variables

open Scan

/-! ### Values and their fallbacks -/

/-- It holds of the value and of every fallback that a reference in it may give way to. -/
inductive Deeply (holds : Text → Prop) : Text → Prop
  | intro {value : Text} (here : holds value)
      (spare : ∀ head arguments fallback, .call head arguments ∈ pieces value →
        calledFallback? arguments = some fallback → Deeply holds fallback) : Deeply holds value

/-- No semicolon cuts the value, and no text in it ends in the start of a call. -/
structure Sheltered (value : Text) : Prop where
  uncut : solid 0 .code value = true
  apart : ∀ content, .text content ∈ pieces value → endsInCallHead content = false

/-- What a value may be cut into: texts that no call starts at the end of, and calls that close and
have sheltered fallbacks. -/
def Fits : Piece → Prop
  | .text content => endsInCallHead content = false
  | .call _ arguments => ∀ fallback, calledFallback? arguments = some fallback →
      Deeply Sheltered fallback
  | .unclosed _ => False

/-- Where parentheses have their partners every call closes. -/
theorem unclosed_not_mem_pieces {depth : Nat} {text rest : Text}
    (counted : Bracket.round.depth? depth .code text = some 0) : .unclosed rest ∉ pieces text := by
  fun_induction pieces text generalizing depth with
  | case1 => simp
  | case2 text before call found unclosed =>
    obtain ⟨letters, opened, keyword, rfl, parts, _, body⟩ := exists_of_splitCall? found
    have free := unparenthesised_of_isKeyword keyword
    have ordinary := closed_of_isKeyword keyword
    rw [body] at unclosed
    rw [parts, Bracket.depth?_append] at counted
    obtain ⟨level, _, counted⟩ := Option.bind_eq_some_iff.mp counted
    rw [(firstCall_of_splitCall? found).after, Bracket.depth?_append,
      Bracket.depth?_of_free _ _ free, Option.bind_some, ordinary.after] at counted
    have behind : Bracket.round.depth? (0 + 1 + level) .code opened = some 0 := by
      rw [Nat.zero_add, Nat.add_comm]
      exact counted
    exact absurd (Bracket.lt_of_splitFrom?_eq_none Bracket.round_sound unclosed behind) (by omega)
  | case3 text before call found arguments after closes ih =>
    obtain ⟨letters, keyword, _, whole, balanced, closed⟩ := exists_call found closes
    obtain ⟨value, closedCall⟩ := isValue_call keyword balanced closed
    rw [whole, Bracket.depth?_append] at counted
    obtain ⟨level, _, counted⟩ := Option.bind_eq_some_iff.mp counted
    rw [(firstCall_of_splitCall? found).after, Bracket.depth?_append, value.balanced.depth,
      Option.bind_some, closedCall.after] at counted
    simpa using ih counted

theorem fits_of_mem_pieces {value : Text} (balanced : Bracket.round.Balanced value)
    (deep : Deeply Sheltered value) : ∀ piece ∈ pieces value, Fits piece := by
  obtain ⟨here, spare⟩ := deep
  intro piece member
  cases piece with
  | text content => exact here.apart content member
  | call head arguments => exact fun fallback => spare head arguments fallback member
  | unclosed rest => exact absurd member (unclosed_not_mem_pieces balanced)

/-! ### Side by side -/

theorem forall_pieces_of_none {P : Piece → Prop} {text : Text}
    (missing : splitCall? .code text = none) :
    (∀ piece ∈ pieces text, P piece) ↔ P (.text text) := by
  rw [pieces_of_none missing, List.forall_mem_singleton]

/-- The pieces of a text are what stands before its first call, the call, and the pieces of the
rest. -/
theorem forall_pieces_of_some {P : Piece → Prop} {text before call arguments rest : Text}
    (found : splitCall? .code text = some (before, call))
    (closes : Bracket.round.split? (call.drop 4) = some (arguments, rest)) :
    (∀ piece ∈ pieces text, P piece) ↔
      P (.text before) ∧ P (.call (call.take 4) arguments) ∧ ∀ piece ∈ pieces rest, P piece := by
  rw [pieces_of_closed found closes, List.forall_mem_cons, List.forall_mem_cons]

/-- Texts that fit make no new call side by side: the last text of the first joins the first of the
second. -/
theorem fits_append {first second : Text} (closed : Closed first)
    (left : ∀ piece ∈ pieces first, Fits piece) (right : ∀ piece ∈ pieces second, Fits piece) :
    ∀ piece ∈ pieces (first ++ second), Fits piece := by
  fun_induction pieces first with
  | case1 first missing =>
    have openEnd : endsInCallHead first = false := left _ (List.mem_singleton_self _)
    have whole := splitCall?_append second missing openEnd
    rw [closed.after] at whole
    cases found : splitCall? .code second with
    | none =>
      rw [found, Option.map_none] at whole
      exact (forall_pieces_of_none whole).mpr
        (endsInCallHead_append openEnd ((forall_pieces_of_none found).mp right))
    | some hit =>
      obtain ⟨before, call⟩ := hit
      rw [found, Option.map_some] at whole
      cases closes : Bracket.round.split? (call.drop 4) with
      | none =>
        rw [pieces_of_unclosed found closes] at right
        exact (right (.unclosed call) (by simp)).elim
      | some parts =>
        obtain ⟨openSecond, others⟩ := (forall_pieces_of_some found closes).mp right
        exact (forall_pieces_of_some whole closes).mpr
          ⟨endsInCallHead_append openEnd openSecond, others⟩
  | case2 first before call found unclosed =>
    exact (left (.unclosed call) (by simp)).elim
  | case3 first before call found arguments rest closes ih =>
    simp only [List.forall_mem_cons] at left
    obtain ⟨head, still⟩ := split?_call_append found closes second
    have same := (firstCall_of_splitCall? found).append second
    refine (forall_pieces_of_some same.splitCall?_eq still).mpr
      ⟨left.1, ?_, ih (closed_of_split? closed found closes) left.2.2⟩
    rw [head]
    exact left.2.1

section replace

variable {replace : Piece → Text} (keeps : KeepsText replace) {value : Text} (closed : Closed value)
include keeps closed

theorem fits_flatMap (fits : ∀ piece ∈ pieces value, Fits piece)
    (calls : ∀ head arguments, .call head arguments ∈ pieces value →
      Closed (replace (.call head arguments)) ∧
        ∀ piece ∈ pieces (replace (.call head arguments)), Fits piece) :
    ∀ piece ∈ pieces ((pieces value).flatMap replace), Fits piece := by
  fun_induction pieces value with
  | case1 text missing =>
    simp only [List.flatMap_cons, List.flatMap_nil, List.append_nil, keeps.text]
    exact (forall_pieces_of_none missing).mpr (fits _ (List.mem_singleton_self _))
  | case2 text before call found unclosed => exact (fits (.unclosed call) (by simp)).elim
  | case3 text before call found arguments rest closes ih =>
    simp only [List.forall_mem_cons] at fits
    obtain ⟨closedNew, new⟩ := calls _ _ (List.mem_cons_of_mem _ (List.mem_cons_self ..))
    have behind := ih (closed_of_split? closed found closes) fits.2.2 fun head inner member =>
      calls head inner (List.mem_cons_of_mem _ (List.mem_cons_of_mem _ member))
    have first := firstCall_of_splitCall? found
    have front : ∀ piece ∈ pieces before, Fits piece :=
      (forall_pieces_of_none first.splitCall?_before).mpr fits.1
    rw [List.flatMap_cons, List.flatMap_cons, keeps.text]
    exact fits_append first.after front (fits_append closedNew new behind)

theorem solid_flatMap (calls : ∀ head arguments, .call head arguments ∈ pieces value →
      Bracket.round.Balanced (replace (.call head arguments)) ∧
        Closed (replace (.call head arguments)) ∧
        solid 0 .code (replace (.call head arguments)) = true) {depth : Nat}
    (uncut : solid depth .code value = true) :
    solid depth .code ((pieces value).flatMap replace) = true := by
  fun_induction pieces value generalizing depth with
  | case1 text missing => simpa [keeps.text] using uncut
  | case2 text before call found unclosed =>
    have same : [.text before, .unclosed call].flatMap replace = text := by
      simp [keeps.text, keeps.unclosed, (splitCall?_sound found).1]
    rwa [same]
  | case3 text before call found arguments rest closes ih =>
    obtain ⟨letters, keyword, _, whole, balanced, closedInner⟩ := exists_call found closes
    obtain ⟨old, closedOld⟩ := isValue_call keyword balanced closedInner
    have front : Closed before := (firstCall_of_splitCall? found).after
    obtain ⟨new, closedNew, uncutNew⟩ :=
      calls _ _ (List.mem_cons_of_mem _ (List.mem_cons_self ..))
    -- The call and its replacement leave as many parentheses open as they find.
    rw [whole, solid_append, front.after, solid_append, closedOld.after,
      nestingAfter_of_depth? (old.balanced.depth _)] at uncut
    simp only [Bool.and_eq_true] at uncut
    have behind := ih (closed_of_split? closed found closes) (fun head inner member =>
      calls head inner (List.mem_cons_of_mem _ (List.mem_cons_of_mem _ member))) uncut.2.2
    rw [List.flatMap_cons, List.flatMap_cons, keeps.text, solid_append, front.after, solid_append,
      closedNew.after, nestingAfter_of_depth? (new.depth _), uncut.1,
      solid_of_balanced new uncutNew, behind]
    rfl

end replace

/-! ### What comes of sheltered values -/

theorem deeply_of_fits {value : Text} (uncut : solid 0 .code value = true)
    (fits : ∀ piece ∈ pieces value, Fits piece) : Deeply Sheltered value :=
  .intro ⟨uncut, fun content => fits (.text content)⟩ fun head arguments fallback member =>
    fits (.call head arguments) member fallback

theorem Deeply.here {holds : Text → Prop} {value : Text} (deep : Deeply holds value) :
    holds value := by
  cases deep
  assumption

/-- Calls that stay as they are written have no fallbacks. -/
theorem Deeply.of_stays {holds : Text → Prop} {value : Text} (here : holds value)
    (each : Each stays value) : Deeply holds value :=
  .intro here fun head arguments fallback member given => by
    have stay := each _ member
    simp [stays, given] at stay

theorem deeply_of_plain {value : Text} (plain : Plain value) (uncut : solid 0 .code value = true) :
    Deeply Sheltered value := by
  refine deeply_of_fits uncut ?_
  rw [pieces_plain plain]
  simpa [Fits] using plain.openEnd

/-- A call in small letters shelters what it sheltered. -/
theorem deeply_literalCall {value head arguments : Text} (deep : Deeply Sheltered value)
    (member : .call head arguments ∈ pieces value) : Deeply Sheltered (literalCall arguments) := by
  obtain ⟨_, balanced, closed, _⟩ := of_mem_pieces member
  obtain ⟨_, spare⟩ := deep
  have uncut : solid 0 .code (literalCall arguments) = true := by
    rw [literalCall, List.append_assoc, solid_append, solid_append]
    exact Bool.and_eq_true_iff.mpr ⟨rfl, Bool.and_eq_true_iff.mpr
      ⟨solid_succ balanced, solid_of_free (by decide) _ _⟩⟩
  refine deeply_of_fits uncut ?_
  rw [literalCall, pieces_lone_call closed balanced]
  simp only [List.forall_mem_cons, List.not_mem_nil, false_implies, implies_true, and_true]
  exact ⟨rfl, fun fallback => spare head arguments fallback member, rfl⟩

/-- What comes of a sheltered value is sheltered, so no semicolon cuts it. -/
theorem Deeply.resolve {definitions : Definitions}
    (defined : ∀ entry ∈ definitions, Rounded entry.2 ∧ Deeply Sheltered entry.2)
    (resolving : List Text) {value : Text} (rounded : Rounded value)
    (deep : Deeply Sheltered value) : Deeply Sheltered (resolve definitions resolving value) := by
  refine (resolve_induction (P := fun text => Rounded text ∧ Deeply Sheltered text) defined
    ?_ ?_ ?_ resolving ⟨rounded, deep⟩).2
  · intro value head arguments ⟨rounded, deep⟩ member
    exact ⟨rounded.literalCall member, deeply_literalCall deep member⟩
  · intro value head arguments fallback ⟨rounded, deep⟩ member given
    obtain ⟨_, spare⟩ := deep
    exact ⟨rounded.fallback member given, spare head arguments fallback member given⟩
  · intro value replace keeps ⟨rounded, deep⟩ calls
    refine ⟨rounded.flatMap keeps fun head arguments member => (calls head arguments member).1,
      deeply_of_fits ?_ ?_⟩
    · refine solid_flatMap keeps rounded.closed (fun head arguments member => ?_) deep.here.uncut
      obtain ⟨value, deep⟩ := calls head arguments member
      exact ⟨value.balanced, value.closed, deep.here.uncut⟩
    · refine fits_flatMap keeps rounded.closed (fits_of_mem_pieces rounded.balanced deep)
        fun head arguments member => ?_
      obtain ⟨value, deep⟩ := calls head arguments member
      exact ⟨value.closed, fits_of_mem_pieces value.balanced deep⟩

end Variables
end ThemeCss
