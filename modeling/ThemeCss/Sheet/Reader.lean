import ThemeCss.Scan.Bracket
import ThemeCss.Scan.Comment
import ThemeCss.Sheet.Node

/-!
# Reading style sheets

Nodes are read one after another from the text without its comments. A node ends at the semicolon of
a statement, at the partner of its opening brace, or, for declarations without a selector, at the
end of the text. A block whose brace has no partner ends the reading: it is kept as trailing text.
The body of an at-rule is read as nodes when it holds a block of its own, so the recursion is on
shorter and shorter text.
-/
namespace ThemeCss.Sheet

/-- Whether the first opening brace has a partner. -/
def hasNestedBlock (body : Text) : Bool :=
  match Text.splitAtWord? ['{'] body with
  | none => false
  | some (_, rest) => (Scan.Bracket.curly.split? rest).isSome

/-- Bare declarations apply to everything. -/
def anySelector : Text := ['*']

/-- Ends a prelude or a selector. -/
def endsPrelude (c : Char) : Bool := c == '{' || c == ';'

/-- Reads nodes and the text left over. -/
def readNodes (text : Text) : List Node × Text :=
  match _start : Text.trimLeft text with
  | [] => ([], [])
  | '@' :: rest =>
    let prelude := Text.trim ('@' :: rest.takeWhile (!endsPrelude ·))
    match _ended : rest.dropWhile (!endsPrelude ·) with
    -- An at-rule with a block; without a partner for its brace the reading ends here.
    | '{' :: opened =>
      match _closed : Scan.Bracket.curly.split? opened with
      | none => ([], Text.trim ('@' :: rest))
      | some (inside, after) =>
        let node :=
          if hasNestedBlock inside then Node.group prelude (readNodes inside).1
          else Node.block prelude (Text.trim inside)
        let (nodes, trailing) := readNodes after
        (node :: nodes, trailing)
    | _ :: after =>
      let (nodes, trailing) := readNodes after
      (.statement prelude :: nodes, trailing)
    -- The last statement may lack its semicolon.
    | [] => ([.statement prelude], [])
  | c :: rest =>
    match _ended : (c :: rest).dropWhile (· != '{') with
    -- No block follows: the rest is declarations without a selector.
    | [] => ([.rule anySelector (Declaration.parseAll (c :: rest))], [])
    | _ :: opened =>
      match _closed : Scan.Bracket.curly.split? opened with
      | none => ([], Text.trim (c :: rest))
      | some (inside, after) =>
        let selector := Text.trim ((c :: rest).takeWhile (· != '{'))
        let (nodes, trailing) := readNodes after
        (.rule selector (Declaration.parseAll inside) :: nodes, trailing)
termination_by text.length
decreasing_by
  all_goals
    -- Every call is on text behind the first character that is not blank.
    have trimmed : (Text.trimLeft text).length ≤ text.length :=
      Text.dropWhile_length_le Text.isBlank text
    simp only [_start, List.length_cons] at trimmed
    have ended := Text.dropWhile_rest_length _ended
  · have closed := Scan.Bracket.split?_length _closed
    omega
  · have closed := Scan.Bracket.split?_length _closed
    omega
  · omega
  · have closed := Scan.Bracket.split?_length _closed
    simp only [List.length_cons] at ended
    omega

def parse (source : Text) : Sheet :=
  let (nodes, trailing) := readNodes (Scan.Comment.strip source)
  { nodes, trailing }

end ThemeCss.Sheet
