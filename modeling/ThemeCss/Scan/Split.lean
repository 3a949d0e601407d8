import ThemeCss.Scan.Mode
import ThemeCss.Text.Blank

/-!
# Splitting at the top level

Arguments split at their first comma, a block at its semicolons and a value at its blanks, each only
outside strings and parentheses. A surplus closing parenthesis hides later commas, since the depth
of arguments may fall below zero; in blocks and values it is ignored.
-/
namespace ThemeCss.Scan

def splitComma? (depth : Int) (mode : Mode) : Text → Option (Text × Text)
  | [] => none
  | c :: rest =>
    if mode.isCode ∧ c = ',' ∧ depth = 0 then some ([], rest)
    else
      let depth :=
        if mode.isCode ∧ c = '(' then depth + 1
        else if mode.isCode ∧ c = ')' then depth - 1
        else depth
      (splitComma? depth (mode.step c) rest).map fun (before, after) => (c :: before, after)

theorem splitComma?_sound {depth : Int} {mode : Mode} {text before after : Text}
    (found : splitComma? depth mode text = some (before, after)) :
    text = before ++ ',' :: after := by
  induction text generalizing depth mode before with
  | nil => cases found
  | cons c rest ih =>
    simp only [splitComma?] at found
    split at found
    next here =>
      obtain ⟨rfl, rfl⟩ := Prod.mk.inj (Option.some.inj found)
      rw [here.2.1]
      rfl
    next =>
      obtain ⟨⟨head, tail⟩, deeper, same⟩ := Option.map_eq_some_iff.mp found
      obtain ⟨rfl, rfl⟩ := Prod.mk.inj same
      rw [ih deeper]
      rfl

/-- The name that a call refers to, and its fallback when a comma follows the name. -/
def splitArguments (arguments : Text) : Text × Option Text :=
  match splitComma? 0 .code arguments with
  | some (name, fallback) => (Text.trim name, some (Text.trim fallback))
  | none => (Text.trim arguments, none)

/-- Puts a character in front of the first part. -/
def growFirst (c : Char) : List Text → List Text
  | [] => [[c]]
  | part :: parts => (c :: part) :: parts

/-- The parentheses open after a character; below zero there is nothing. -/
def nesting (depth : Nat) (live : Bool) (c : Char) : Nat :=
  if live && c == '(' then depth + 1
  else if live && c == ')' then depth - 1
  else depth

def chunksFrom (depth : Nat) (mode : Mode) : Text → List Text
  | [] => [[]]
  | c :: rest =>
    -- A semicolon at depth zero ends the chunk, and the depth starts over with it.
    if mode.isCode ∧ c = ';' ∧ depth = 0 then [] :: chunksFrom 0 mode rest
    else growFirst c (chunksFrom (nesting depth mode.isCode c) (mode.step c) rest)

/-- The trimmed parts between top-level semicolons, empty ones left out. -/
def chunks (body : Text) : List Text :=
  ((chunksFrom 0 .code body).map Text.trim).filter (!·.isEmpty)

/-- Inside a value a backslash is an ordinary character. -/
def quoteAfter : Option Char → Char → Option Char
  | some quote, c => if c = quote then none else some quote
  | none, c => if Mode.isQuote c then some c else none

def componentsFrom (depth : Nat) (quote : Option Char) : Text → List Text
  | [] => [[]]
  | c :: rest =>
    if quote.isNone ∧ Text.isBlank c ∧ depth = 0 then [] :: componentsFrom 0 quote rest
    else growFirst c (componentsFrom (nesting depth quote.isNone c) (quoteAfter quote c) rest)

/-- The non-empty parts of a value between its top-level blanks. -/
def components (value : Text) : List Text :=
  (componentsFrom 0 none value).filter (!·.isEmpty)

end ThemeCss.Scan
