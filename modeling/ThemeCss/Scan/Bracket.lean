import ThemeCss.Scan.Mode

/-!
# Brackets

A closing bracket belongs to the opening one it brings back to depth zero. Only brackets in code
count: those in strings and those behind a backslash are ordinary characters. The depth is an
integer because a scan may start anywhere, also at a closing bracket, which then has no partner.
-/
namespace ThemeCss.Scan

structure Bracket where
  opener : Char
  closer : Char

namespace Bracket

def round : Bracket := ⟨'(', ')'⟩

def curly : Bracket := ⟨'{', '}'⟩

/-- What a character read in this mode adds to the depth. -/
def weight (bracket : Bracket) (mode : Mode) (c : Char) : Int :=
  if !mode.isCode then 0
  else if c = bracket.opener then 1
  else if c = bracket.closer then -1
  else 0

/-- The text before the closing bracket that ends the given depth, and the text after it. -/
def splitFrom? (bracket : Bracket) (depth : Int) (mode : Mode) : Text → Option (Text × Text)
  | [] => none
  | c :: rest =>
    let now := depth + bracket.weight mode c
    if bracket.weight mode c < 0 ∧ now = 0 then some ([], rest)
    else (bracket.splitFrom? now (mode.step c) rest).map fun (inside, after) => (c :: inside, after)

/-- Splits at the partner of an opening bracket just before this text. -/
def split? (bracket : Bracket) (text : Text) : Option (Text × Text) :=
  bracket.splitFrom? 1 .code text

/-- The index of the closing bracket that a scan from `start` finds. -/
def closing? (bracket : Bracket) (text : Text) (start : Nat) : Option Nat :=
  (bracket.splitFrom? 0 .code (text.drop start)).map fun (inside, _) => start + inside.length

theorem splitFrom?_sound {bracket : Bracket} {depth : Int} {mode : Mode} {text inside after : Text}
    (found : bracket.splitFrom? depth mode text = some (inside, after)) :
    text = inside ++ bracket.closer :: after := by
  induction text generalizing depth mode inside with
  | nil => simp [splitFrom?] at found
  | cons c rest ih =>
    simp only [splitFrom?] at found
    split at found
    next closes =>
      simp only [Option.some.injEq, Prod.mk.injEq] at found
      obtain ⟨rfl, rfl⟩ := found
      -- Only a closing bracket in code lowers the depth.
      have same : c = bracket.closer := by
        have negative := closes.1
        simp only [weight] at negative
        split at negative <;> try omega
        split at negative <;> try omega
        split at negative <;> first | assumption | omega
      simp [same]
    next =>
      simp only [Option.map_eq_some_iff, Prod.mk.injEq] at found
      obtain ⟨⟨head, tail⟩, deeper, rfl, rfl⟩ := found
      simp [ih deeper]

theorem split?_length {bracket : Bracket} {text inside after : Text}
    (found : bracket.split? text = some (inside, after)) :
    text.length = inside.length + 1 + after.length := by
  have parts := splitFrom?_sound found
  simp only [parts, List.length_append, List.length_cons]
  omega

end Bracket
end ThemeCss.Scan
