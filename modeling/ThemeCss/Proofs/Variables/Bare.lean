import ThemeCss.Proofs.Scan.Plain
import ThemeCss.Variables.Resolve

/-!
# Bare texts

When nothing is defined, resolving replaces a call only by its fallback, and writes it in small
letters. A text is bare when its calls are in small letters, have no fallback and are closed:
nothing is replaced in it, and a text that is bare and leaves no string open can be put in front of
another with a character between that is no part of a call.
-/
namespace ThemeCss.Scan

section breaks

variable {c : Char} (apart : Text.breaks callWord c = true)
include apart

/-- A character that is no part of a call keeps what stands before it and behind it apart. -/
theorem splitCall?_append_breaks (mode : Mode) (first second : Text) :
    splitCall? mode (first ++ c :: second)
      = match splitCall? mode first with
        | some (before, call) => some (before, call ++ c :: second)
        | none => (splitCall? (mode.after (first ++ [c])) second).map fun (before, call) =>
            (first ++ c :: before, call) := by
  have starts : ∀ text, (dropCall? (text ++ c :: second)).isSome = (dropCall? text).isSome := by
    intro text
    rw [dropCall?, Text.dropKeyword?_append_breaks apart, Option.isSome_map, dropCall?]
  induction first generalizing mode with
  | nil =>
    have here : (dropCall? (c :: second)).isSome = false := starts []
    simp [splitCall?, here]
  | cons d rest ih =>
    have here := starts (d :: rest)
    rw [List.cons_append] at here ⊢
    rw [splitCall?, splitCall?, here]
    split
    · rfl
    · rw [ih]
      cases splitCall? (mode.step d) rest with
      | some found => rfl
      | none => simp [Option.map_map, Function.comp_def]

end breaks

/-- The head of a call is ordinary text. -/
theorem closed_take_of_dropCall? {call : Text} (starts : (dropCall? call).isSome) :
    Closed (call.take 4) := by
  obtain ⟨after, dropped⟩ := Option.isSome_iff_exists.mp starts
  obtain ⟨met, parts, keyword⟩ := Text.exists_isKeyword dropped
  have size : met.length = 4 := Text.isKeyword_length keyword
  have head : call.take 4 = met := by rw [parts, ← size, List.take_left]
  rw [head]
  apply closed_of_ordinary
  exact ordinary_of_avoids (Text.avoids_of_isKeyword (by decide) keyword)

/-- What stands behind a call of a closed text is closed. -/
theorem closed_of_split? {text before call arguments rest : Text} (closed : Closed text)
    (found : splitCall? .code text = some (before, call))
    (closes : Bracket.round.split? (call.drop 4) = some (arguments, rest)) : Closed rest := by
  obtain ⟨parts, starts⟩ := splitCall?_sound found
  have head := closed_take_of_dropCall? starts
  have inner := (Bracket.balanced_of_split? Bracket.round_sound closes).2
  have body := Bracket.splitFrom?_sound closes
  -- The call is its head, the arguments, the closing parenthesis and the rest.
  have whole : call = call.take 4 ++ (arguments ++ ')' :: rest) := by
    conv => lhs; rw [← List.take_append_drop 4 call, body]
    rfl
  have front : Closed before := (firstCall_of_splitCall? found).after
  rw [parts, whole, closed_append_iff front, closed_append_iff head, closed_append_iff inner,
    closed_cons rfl] at closed
  exact closed

end ThemeCss.Scan

namespace ThemeCss.Variables

open Scan

/-- Whether resolving leaves the piece as it is written when nothing is defined: a call stays if it
is in small letters and has no fallback, or never closes. -/
def stays : Piece → Bool
  | .text _ => true
  | .call head arguments => head == callWord && (calledFallback? arguments).isNone
  | .unclosed _ => true

def isClosed : Piece → Bool
  | .unclosed _ => false
  | _ => true

def Each (holds : Piece → Bool) (text : Text) : Prop := ∀ piece ∈ pieces text, holds piece = true

instance (holds : Piece → Bool) (text : Text) : Decidable (Each holds text) :=
  List.decidableBAll _ (pieces text)

/-- Every call is closed and stays when nothing is defined. -/
def Bare : Text → Prop := Each fun piece => stays piece && isClosed piece

instance (text : Text) : Decidable (Bare text) := inferInstanceAs (Decidable (Each _ text))

theorem Bare.stays {text : Text} (bare : Bare text) : Each stays text := by
  intro piece member
  have both := bare piece member
  rw [Bool.and_eq_true] at both
  exact both.1

/-- Where every piece stays, resolving without definitions changes nothing. -/
theorem resolve_of_stays {text : Text} (each : Each stays text) (resolving : List Text) :
    resolve [] resolving text = text := by
  have same : ∀ piece ∈ pieces text, resolvePiece [] resolving piece = piece.write := by
    intro piece member
    have stay := each piece member
    cases piece with
    | text => rfl
    | unclosed => rfl
    | call head arguments =>
      simp only [Variables.stays, Bool.and_eq_true, beq_iff_eq, Option.isNone_iff_eq_none] at stay
      have undefined : usable? ([] : Definitions) resolving (calledName arguments) = none := by
        simp [usable?, Entries.find?]
      simp only [resolvePiece, undefined, stay.2, literalCall, Piece.write, stay.1]
  conv => rhs; rw [← flatMap_write_pieces text]
  rw [resolve_eq_flatMap, List.flatMap_def, List.flatMap_def, List.map_congr_left same]

section each

variable {holds : Piece → Bool} (texts : ∀ content, holds (.text content) = true)
include texts

theorem each_of_none {text : Text} (missing : splitCall? .code text = none) : Each holds text := by
  rw [Each, pieces_of_none missing]
  simpa using texts text

/-- The first call of a text and what stands behind it settle what holds of its pieces. -/
theorem each_iff_of_some {text before call : Text}
    (found : splitCall? .code text = some (before, call)) :
    Each holds text ↔ match Bracket.round.split? (call.drop 4) with
      | none => holds (.unclosed call) = true
      | some (arguments, rest) =>
        holds (.call (call.take 4) arguments) = true ∧ Each holds rest := by
  cases closes : Bracket.round.split? (call.drop 4) with
  | none =>
    rw [Each, pieces_of_unclosed found closes]
    simp [texts]
  | some parts =>
    rw [Each, pieces_of_closed found closes]
    simp [texts, Each]

/-- Bare closed text can be put in front with a character between that is no part of a call. -/
theorem each_append {c : Char} (apart : Text.breaks callWord c = true)
    (ordinary : isOrdinary c = true) {first second : Text} (closed : Closed first)
    (left : Each (fun piece => holds piece && isClosed piece) first) (right : Each holds second) :
    Each holds (first ++ c :: second) := by
  have both : ∀ content, (holds (.text content) && isClosed (.text content)) = true := by
    intro content
    rw [texts content]
    rfl
  -- The induction is on the calls of the first text; behind its last one the second text starts.
  fun_induction pieces first with
  | case1 first missing =>
    have ends : Mode.code.after (first ++ [c]) = .code := closed.append (closed_nil.cons ordinary)
    have whole := splitCall?_append_breaks apart .code first second
    rw [missing, ends] at whole
    cases found : splitCall? .code second with
    | none =>
      rw [found] at whole
      exact each_of_none texts whole
    | some hit =>
      rw [found] at whole
      exact (each_iff_of_some texts whole).mpr ((each_iff_of_some texts found).mp right)
  | case2 first before call found missing =>
    have closes := (each_iff_of_some both found).mp left
    simp [missing, isClosed] at closes
  | case3 first before call found arguments rest closes ih =>
    have parts := (each_iff_of_some both found).mp left
    simp only [closes, Bool.and_eq_true] at parts
    obtain ⟨head, still⟩ := split?_call_append found closes (c :: second)
    have whole := splitCall?_append_breaks apart .code first second
    rw [found] at whole
    rw [each_iff_of_some texts whole]
    simp only [still, head]
    exact ⟨parts.1.1, ih (closed_of_split? closed found closes) parts.2⟩

end each

theorem bare_of_none {text : Text} (missing : splitCall? .code text = none) : Bare text :=
  each_of_none (fun _ => rfl) missing

theorem Bare.append {first second : Text} {c : Char} (apart : Text.breaks callWord c = true)
    (ordinary : isOrdinary c = true) (closed : Closed first) (left : Bare first)
    (right : Bare second) : Bare (first ++ c :: second) := by
  apply each_append (fun _ => rfl) apart ordinary closed _ right
  intro piece member
  have both := left piece member
  simpa using both

theorem Bare.append_stays {first second : Text} {c : Char} (apart : Text.breaks callWord c = true)
    (ordinary : isOrdinary c = true) (closed : Closed first) (left : Bare first)
    (right : Each Variables.stays second) : Each Variables.stays (first ++ c :: second) :=
  each_append (fun _ => rfl) apart ordinary closed left right

end ThemeCss.Variables
