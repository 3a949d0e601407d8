import ThemeCss.Scan.Bracket
import ThemeCss.Text.Caseless

/-!
# References

A reference is a call of `var` in any case that starts in code. A text is cut into the references
that stand side by side in it and the text between them; what stands inside a call is part of its
arguments. A call that never closes runs to the end. Every search starts in code again, which loses
nothing because a closing bracket is found only in code. Writing the pieces gives the text back.
-/
namespace ThemeCss.Scan

def callWord : Text := ['v', 'a', 'r', '(']

/-- What follows the head of a call at the start of the text. -/
def dropCall? (text : Text) : Option Text := Text.dropKeyword? callWord text

/-- The text before the next call in code and the text from that call on. -/
def splitCall? (mode : Mode) : Text → Option (Text × Text)
  | [] => none
  | c :: rest =>
    if mode.isCode && (dropCall? (c :: rest)).isSome then some ([], c :: rest)
    else (splitCall? (mode.step c) rest).map fun (before, call) => (c :: before, call)

/-- The index of the next call from `start` on. -/
def nextCall? (text : Text) (start : Nat) : Option Nat :=
  (splitCall? .code (text.drop start)).map fun (before, _) => start + before.length

/-- Whether some call stands outside strings. -/
def hasReference (text : Text) : Bool := (splitCall? .code text).isSome

/-- Whether a call is spelled anywhere, in strings too. -/
def spellsReference (text : Text) : Bool := Text.holdsKeyword callWord text

inductive Piece where
  | text (content : Text)
  | call (head arguments : Text)
  | unclosed (rest : Text)
  deriving DecidableEq, Repr

def Piece.write : Piece → Text
  | .text content => content
  | .call head arguments => head ++ arguments ++ [')']
  | .unclosed rest => rest

theorem splitCall?_sound {mode : Mode} {text before call : Text}
    (found : splitCall? mode text = some (before, call)) :
    text = before ++ call ∧ (dropCall? call).isSome := by
  induction text generalizing mode before with
  | nil => simp [splitCall?] at found
  | cons c rest ih =>
    simp only [splitCall?] at found
    split at found
    next starts =>
      simp only [Option.some.injEq, Prod.mk.injEq] at found
      obtain ⟨rfl, rfl⟩ := found
      simp only [Bool.and_eq_true] at starts
      exact ⟨rfl, starts.2⟩
    next =>
      simp only [Option.map_eq_some_iff, Prod.mk.injEq] at found
      obtain ⟨⟨head, tail⟩, deeper, rfl, rfl⟩ := found
      obtain ⟨parts, starts⟩ := ih deeper
      exact ⟨by simp [parts], starts⟩

theorem dropCall?_length {call after : Text} (found : dropCall? call = some after) :
    call.length = 4 + after.length := by
  simpa [callWord] using Text.dropKeyword?_length found

theorem call_length {mode : Mode} {text before call : Text}
    (found : splitCall? mode text = some (before, call)) :
    text.length = before.length + call.length ∧ 4 ≤ call.length := by
  obtain ⟨parts, starts⟩ := splitCall?_sound found
  obtain ⟨after, dropped⟩ := Option.isSome_iff_exists.mp starts
  have size := dropCall?_length dropped
  refine ⟨?_, by omega⟩
  rw [parts, List.length_append]

def pieces (text : Text) : List Piece :=
  match _found : splitCall? .code text with
  | none => [.text text]
  | some (before, call) =>
    match _closed : Bracket.round.split? (call.drop 4) with
    | none => [.text before, .unclosed call]
    | some (arguments, rest) => .text before :: .call (call.take 4) arguments :: pieces rest
termination_by text.length
decreasing_by
  -- A call is four characters at least, so what follows it is shorter.
  have size := call_length _found
  have inner := Bracket.split?_length _closed
  simp only [List.length_drop] at inner
  omega

theorem pieces_of_none {text : Text} (missing : splitCall? .code text = none) :
    pieces text = [.text text] := by
  rw [pieces]
  split
  next => rfl
  next found => rw [missing] at found; cases found

section split

variable {text before call : Text} (found : splitCall? .code text = some (before, call))
include found

/-- A call that never closes is the last piece. -/
theorem pieces_of_unclosed (unclosed : Bracket.round.split? (call.drop 4) = none) :
    pieces text = [.text before, .unclosed call] := by
  rw [pieces]
  split
  next missing => rw [found] at missing; cases missing
  next found' =>
    obtain ⟨rfl, rfl⟩ := Prod.mk.inj (Option.some.inj (found.symm.trans found'))
    split
    next => rfl
    next closed => rw [unclosed] at closed; cases closed

/-- What stands before the first call, the call and the pieces behind it are those of the text. -/
theorem pieces_of_closed {arguments rest : Text}
    (closed : Bracket.round.split? (call.drop 4) = some (arguments, rest)) :
    pieces text = .text before :: .call (call.take 4) arguments :: pieces rest := by
  rw [pieces]
  split
  next missing => rw [found] at missing; cases missing
  next found' =>
    obtain ⟨rfl, rfl⟩ := Prod.mk.inj (Option.some.inj (found.symm.trans found'))
    split
    next unclosed => rw [closed] at unclosed; cases unclosed
    next closed' =>
      obtain ⟨rfl, rfl⟩ := Prod.mk.inj (Option.some.inj (closed.symm.trans closed'))
      rfl

end split

/-- Cutting a text into pieces loses nothing. -/
theorem flatMap_write_pieces (text : Text) : (pieces text).flatMap Piece.write = text := by
  fun_induction pieces text with
  | case1 => simp [Piece.write]
  | case2 text before call found => simp [Piece.write, (splitCall?_sound found).1]
  | case3 text before call found arguments rest closed ih =>
    have body := Bracket.splitFrom?_sound closed
    have parts := (splitCall?_sound found).1
    -- The call is its four letters, the arguments, the parenthesis and the rest.
    have whole := List.take_append_drop 4 call
    rw [body] at whole
    simp only [List.flatMap_cons, ih, Piece.write]
    rw [parts]
    conv => rhs; rw [← whole]
    simp [Bracket.round]

/-- Arguments are shorter than the text their call stands in. -/
theorem arguments_length_lt {text head arguments : Text}
    (member : Piece.call head arguments ∈ pieces text) : arguments.length < text.length := by
  fun_induction pieces text with
  -- Only the last case cuts a call off, and its arguments stand behind four characters.
  | case1 => simp at member
  | case2 => simp at member
  | case3 text before call found inner rest closed ih =>
    have size := call_length found
    have room := Bracket.split?_length closed
    simp only [List.length_drop] at room
    simp only [List.mem_cons, reduceCtorEq, Piece.call.injEq, false_or] at member
    rcases member with ⟨_, rfl⟩ | later
    · omega
    · have below := ih later
      omega

end ThemeCss.Scan
