import ThemeCss.Text.Basic

/-!
# Scan modes

Whether a character of a style sheet counts depends on what was read before it: inside a string
only the matching quote counts, and after a backslash nothing does, in a string or out of it. A mode
is that knowledge. Reading a text folds `step` over it, so reading a whole is reading its parts in
turn.
-/
namespace ThemeCss.Scan

structure Mode where
  quote : Option Char
  escaped : Bool
  deriving DecidableEq, Repr

namespace Mode

/-- Outside strings, with no backslash pending. -/
def code : Mode := ⟨none, false⟩

def isCode (mode : Mode) : Bool := mode.quote.isNone && !mode.escaped

def isQuote (c : Char) : Bool := c == '\'' || c == '"'

def step (mode : Mode) (c : Char) : Mode :=
  -- A pending backslash takes the character before anything else looks at it.
  if mode.escaped then { mode with escaped := false }
  else if c = '\\' then { mode with escaped := true }
  else match mode.quote with
    | some quote => if c = quote then code else mode
    | none => if isQuote c then { mode with quote := some c } else mode

def after (mode : Mode) (text : Text) : Mode := text.foldl step mode

theorem after_append (mode : Mode) (first second : Text) :
    mode.after (first ++ second) = (mode.after first).after second := by
  simp [after]

end Mode
end ThemeCss.Scan
