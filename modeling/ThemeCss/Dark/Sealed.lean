import ThemeCss.Scan.Reference
import ThemeCss.Text.Alphanumeric
import ThemeCss.Text.Fragment

/-!
# Sealed parts of a value

Strings, references and addresses are sealed, that is, never looked into: a quoted string with its
escapes, and a call of `var` or `url` that is not the tail of a longer name. Either runs to the end
of the value when it does not close. The rest of the value falls into segments between them.
-/
namespace ThemeCss.Dark

/-- The characters of a string behind its opening quote. -/
def stringSize (quote : Char) : Text → Nat
  | [] => 0
  | ['\\'] => 1
  | '\\' :: _ :: rest => stringSize quote rest + 2
  | c :: rest => if c = quote then 1 else stringSize quote rest + 1

def sealedFunctions : List Text := [Scan.callWord, ['u', 'r', 'l', '(']]

def startsSealedCall (text : Text) : Bool := sealedFunctions.any (Text.startsWithKeyword · text)

/-- Letters, digits, hyphens and underscores make a name longer. -/
def endsName : Option Char → Bool
  | some c => Text.isName c
  | none => false

def sealedMatcher : Text.Matcher Unit
  | _, [] => none
  | before, c :: rest =>
    if Scan.Mode.isQuote c then some ((), 1 + stringSize c rest)
    else if startsSealedCall (c :: rest) ∧ ¬ endsName before then
      -- Four characters open the call and one closes it.
      match Scan.Bracket.round.split? (rest.drop 3) with
      | some (inside, _) => some ((), inside.length + 5)
      | none => some ((), rest.length + 1)
    else none

/-- The start and the end of every sealed part. -/
def sealedSpans (value : Text) : List (Nat × Nat) :=
  (Text.hits sealedMatcher value).map fun (start, _, covered) => (start, start + covered.length)

inductive Segment where
  | plain (content : Text)
  | sealed (content : Text)
  deriving DecidableEq, Repr

/-- Gathers the characters between hits. -/
def gather : List (Text.Fragment Unit) → List Segment
  | [] => []
  | .hit _ covered :: rest => .sealed covered :: gather rest
  | .plain c :: rest =>
    match gather rest with
    | .plain content :: segments => .plain (c :: content) :: segments
    | segments => .plain [c] :: segments

def segments (value : Text) : List Segment :=
  gather (Text.fragments sealedMatcher none value)

end ThemeCss.Dark
