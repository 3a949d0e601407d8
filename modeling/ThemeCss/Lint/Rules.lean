import ThemeCss.Lint.Diagnostic
import ThemeCss.Lint.Region
import ThemeCss.Scan.Comment
import ThemeCss.Scan.Reference
import ThemeCss.Scan.Split

/-!
# Rules

Three rules: references left over and custom properties left over are warnings, because the
publishing target drops them; braces that do not match are errors, because conversion drops the text
after them.
-/
namespace ThemeCss.Lint

open Scan

abbrev Rule := Text → List Diagnostic

/-- The references of a style sheet with their arguments, each with the place it starts at. -/
def placeCalls (start : Nat) : List Piece → List (Nat × Text)
  | [] => []
  | .text content :: rest => placeCalls (start + content.length) rest
  | .call head arguments :: rest =>
    (start, arguments) :: placeCalls (start + head.length + arguments.length + 1) rest
  | .unclosed call :: rest => (start, call.drop 4) :: placeCalls (start + call.length) rest

def calls (css : Text) : List (Nat × Text) := placeCalls 0 (pieces css)

def unresolvedName : Text := "check_unresolved_var".toList

def unresolved (line : Nat) (arguments : Text) : Diagnostic :=
  let (name, fallback) := splitArguments arguments
  { rule := unresolvedName
    severity := .warning
    message := "Unresolved reference var(".toList ++ name ++
      ") will not render on the publishing target.".toList
    line := some line
    fix :=
      if (fallback.getD []).isEmpty then
        some ("Declare ".toList ++ name ++ " or add a fallback value.".toList)
      else none }

/-- References outside strings. -/
def checkReferences : Rule := fun text =>
  (regions text).flatMap fun (offset, css) =>
    (calls css).map fun (place, arguments) => unresolved (lineAt text (offset + place)) arguments

/-- A name with two leading hyphens and a colon behind it. -/
def customMatcher : Text.Matcher Text := fun before text =>
  match before.any Text.isName, text with
  | false, '-' :: '-' :: rest =>
    let name := rest.takeWhile Text.isName
    let blanks := (rest.dropWhile Text.isName).takeWhile Text.isBlank
    match (rest.dropWhile Text.isName).dropWhile Text.isBlank with
    | ':' :: _ =>
      if name.isEmpty then none
      else some ('-' :: '-' :: name, name.length + blanks.length + 3)
    | _ => none
  | _, _ => none

def declaredName : Text := "check_custom_property_declarations".toList

def stillDeclared (line : Nat) (name : Text) : Diagnostic :=
  { rule := declaredName
    severity := .warning
    message := "Custom property ".toList ++ name ++ " is still declared.".toList
    line := some line
    fix := some "Run variable expansion before publishing.".toList }

/-- Custom properties declared outside strings. -/
def checkCustomProperties : Rule := fun text =>
  (regions text).flatMap fun (offset, css) =>
    let outside := (outsideStrings .code css).toArray
    ((Text.hits customMatcher css).filter fun (place, _) => outside.getD place false).map
      fun (place, name, _) => stillDeclared (lineAt text (offset + place)) name

/-- The braces that count, with their places. -/
def braces (text : Text) : List (Nat × Char) :=
  let source := Comment.blank text
  ((source.zip (outsideStrings .code source)).zipIdx.filter fun ((c, outside), _) =>
    outside && (c == '{' || c == '}')).map fun ((c, _), place) => (place, c)

/-- Braces without a partner: closing ones in order, then open ones with the latest first. -/
structure Unmatched where
  closing : List Nat
  opening : List Nat

def Unmatched.add (unmatched : Unmatched) (brace : Nat × Char) : Unmatched :=
  if brace.2 = '{' then { unmatched with opening := brace.1 :: unmatched.opening }
  else match unmatched.opening with
    | _ :: outer => { unmatched with opening := outer }
    | [] => { unmatched with closing := unmatched.closing ++ [brace.1] }

def bracesName : Text := "check_balanced_braces".toList

def unexpectedClosing (line : Nat) : Diagnostic :=
  { rule := bracesName
    severity := .error
    message := r"Unexpected '}' with no matching '{'.".toList
    line := some line
    fix := some "Remove the stray brace.".toList }

def neverClosed (line : Nat) : Diagnostic :=
  { rule := bracesName
    severity := .error
    message := r"Block opened with '{' is never closed.".toList
    line := some line
    fix := some "Close the block; text after it is dropped on conversion.".toList }

/-- Braces outside strings and comments that do not match. -/
def checkBraces : Rule := fun text =>
  let source := Comment.blank text
  let unmatched := (braces text).foldl Unmatched.add ⟨[], []⟩
  unmatched.closing.map (fun place => unexpectedClosing (lineAt source place)) ++
    unmatched.opening.reverse.map fun place => neverClosed (lineAt source place)

end ThemeCss.Lint
