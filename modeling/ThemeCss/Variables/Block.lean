import ThemeCss.Sheet.Declaration
import ThemeCss.Text.Fragment

/-!
# Innermost blocks

Expansion looks at the text of a whole sheet and sees its innermost blocks only: a brace, text
without braces and the closing brace, strings or not. A rule is such a block with the text before it
back to the last brace or semicolon. Dropping custom properties rewrites every rule, removes those
left without declarations, and then removes at-rules whose block is empty until none is left.
-/
namespace ThemeCss.Variables

open Sheet

def isBrace (c : Char) : Bool := c == '{' || c == '}'

def isDelimiter (c : Char) : Bool := isBrace c || c == ';'

/-- The body of an innermost block. -/
def blockMatcher : Text.Matcher Text
  | _, c :: rest =>
    -- The next brace behind the opening one has to be its closing one.
    if c = '{' ∧ (rest.dropWhile (!isBrace ·)).head? = some '}' then
      let body := rest.takeWhile (!isBrace ·)
      some (body, body.length + 2)
    else none
  | _, [] => none

/-- The selector and the body of an innermost block, the blanks around the selector included. -/
def ruleMatcher : Text.Matcher (Text × Text) := fun before text =>
  let selector := text.takeWhile (!isDelimiter ·)
  (blockMatcher before (text.dropWhile (!isDelimiter ·))).map fun (body, size) =>
    ((selector, body), selector.length + size)

/-- An at-rule whose block is blank, with the blanks before it. -/
def emptyAtRuleMatcher : Text.Matcher Unit := fun before text =>
  let blanks := text.takeWhile Text.isBlank
  match text.dropWhile Text.isBlank with
  | '@' :: rest =>
    (ruleMatcher before rest).bind fun ((_, body), size) =>
      if body.all Text.isBlank then some ((), blanks.length + 1 + size) else none
  | _ => none

def blockBodies (css : Text) : List Text :=
  (Text.hits blockMatcher css).map fun (_, body, _) => body

/-- A rule without its custom properties; only the blanks before it when nothing is left. -/
def rewriteRule (selector body : Text) : Text :=
  let kept := (Declaration.parseAll body).filter (!·.isCustom)
  let leading := selector.takeWhile Text.isBlank
  if kept.isEmpty then leading
  else
    leading ++ Text.trim selector ++ r" { ".toList ++
      Text.join [';', ' '] (kept.map Declaration.write) ++ r"; }".toList

/-- One pass that rewrites every rule. -/
def dropDeclarations (css : Text) : Text :=
  Text.rewrite ruleMatcher (fun (selector, body) _ => rewriteRule selector body) css

/-- One pass that removes every empty at-rule. -/
def dropEmptyAtRules (css : Text) : Text := Text.rewrite emptyAtRuleMatcher (fun _ _ => []) css

/-- Removes empty at-rules until a pass removes nothing. -/
def collapse (css : Text) : Text :=
  let collapsed := dropEmptyAtRules css
  if collapsed.length < css.length then collapse collapsed else css
termination_by css.length

def dropCustom (css : Text) : Text := collapse (dropDeclarations css)

end ThemeCss.Variables
