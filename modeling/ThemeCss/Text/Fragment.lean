import ThemeCss.Text.Basic

/-!
# Fragments

A matcher recognises one form at the place it is asked about, knowing the character before that
place. Reading a text with a matcher cuts it from left to right into hits and the single characters
between them: a hit starts at the first place where the matcher answers, the next search starts
where the hit ends, and hits never overlap. Nothing is lost: the covered texts and the characters
between them, in order, are the text.
-/
namespace ThemeCss.Text

/-- Answers a value and how many characters it covers; at least one is always covered. -/
abbrev Matcher (α : Type) := Option Char → Text → Option (α × Nat)

inductive Fragment (α : Type) where
  | plain (c : Char)
  | hit (value : α) (covered : Text)
  deriving Repr

variable {α : Type}

def Fragment.text : Fragment α → Text
  | .plain c => [c]
  | .hit _ covered => covered

/-- Reads the text behind the character `before`. -/
def fragments (matcher : Matcher α) (before : Option Char) : Text → List (Fragment α)
  | [] => []
  | c :: rest =>
    match matcher before (c :: rest) with
    | none => .plain c :: fragments matcher (some c) rest
    | some (value, size) =>
      -- The first character is covered in any case, so a hit never stands still.
      let inner := rest.take (size - 1)
      .hit value (c :: inner) ::
        fragments matcher (some (inner.getLastD c)) (rest.drop (size - 1))
termination_by text => text.length
decreasing_by
  · simp
  · simp only [List.length_drop, List.length_cons]
    omega

/-- Writes the fragments back with every hit replaced. -/
def rewriteFragments (replace : α → Text → Text) (parts : List (Fragment α)) : Text :=
  parts.flatMap fun
    | .plain c => [c]
    | .hit value covered => replace value covered

/-- Replaces every hit in a text that stands alone. -/
def rewrite (matcher : Matcher α) (replace : α → Text → Text) (text : Text) : Text :=
  rewriteFragments replace (fragments matcher none text)

/-- Replaces every hit in turn, or answers the first error. -/
def tryRewrite {ε : Type} (matcher : Matcher α) (replace : α → Text → Except ε Text)
    (text : Text) : Except ε Text := do
  let parts ← (fragments matcher none text).mapM fun
    | .plain c => .ok [c]
    | .hit value covered => replace value covered
  return parts.flatten

/-- Pairs each hit with the index it starts at, counted from `start`. -/
def placedHits (start : Nat) : List (Fragment α) → List (Nat × α × Text)
  | [] => []
  | .plain _ :: rest => placedHits (start + 1) rest
  | .hit value covered :: rest =>
    (start, value, covered) :: placedHits (start + covered.length) rest

def hits (matcher : Matcher α) (text : Text) : List (Nat × α × Text) :=
  placedHits 0 (fragments matcher none text)

def holdsMatch (matcher : Matcher α) (text : Text) : Bool :=
  !(hits matcher text).isEmpty

theorem flatMap_text_fragments (matcher : Matcher α) (before : Option Char) (text : Text) :
    (fragments matcher before text).flatMap Fragment.text = text := by
  fun_induction fragments matcher before text with
  | case1 => rfl
  | case2 before c rest _ ih => simp [Fragment.text, ih]
  | case3 before c rest value size _ inner ih =>
    simp only [List.flatMap_cons, ih]
    simp [Fragment.text, inner]

end ThemeCss.Text
