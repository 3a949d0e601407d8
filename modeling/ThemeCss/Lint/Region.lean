import ThemeCss.Scan.Mode
import ThemeCss.Text.Alphanumeric
import ThemeCss.Text.Blank
import ThemeCss.Text.Caseless
import ThemeCss.Text.Fragment

/-!
# Regions

In markup only the values of style attributes are style sheets; any other text is one as a whole.
Positions in a region are places of the text, and the line of a place is one more than the line
breaks before it.
-/
namespace ThemeCss.Lint

/-- The line of a place in a text. -/
def lineAt (text : Text) (place : Nat) : Nat := Text.newlines (text.take place) + 1

/-- For each character whether it stands outside strings; quotes that delimit one do not. -/
def outsideStrings (mode : Scan.Mode) : Text → List Bool
  | [] => []
  | c :: rest =>
    (mode.quote.isNone && (mode.escaped || !Scan.Mode.isQuote c)) ::
      outsideStrings (mode.step c) rest

/-- The value of a quoted style attribute and how far behind the attribute's start it begins. -/
def styleMatcher : Text.Matcher (Nat × Text) := fun before text =>
  if Text.isWord? before then none
  else match (Text.dropKeyword? "style".toList text).map Text.trimLeft with
    | some ('=' :: rest) =>
      match Text.trimLeft rest with
      | quote :: value =>
        let css := value.takeWhile (· != quote)
        let lead := text.length - value.length
        if Scan.Mode.isQuote quote ∧ css.length < value.length then
          some ((lead, css), lead + css.length + 1)
        else none
      | [] => none
    | _ => none

/-- The style sheets in a text with the places they start at. -/
def regions (text : Text) : List (Nat × Text) :=
  let styles := if text.contains '<' then Text.hits styleMatcher text else []
  if styles.isEmpty then [(0, text)]
  else styles.map fun (start, (lead, css), _) => (start + lead, css)

end ThemeCss.Lint
