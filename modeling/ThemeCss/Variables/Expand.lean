import ThemeCss.Scan.Comment
import ThemeCss.Variables.Block
import ThemeCss.Variables.Resolve

/-!
# Static expansion

All custom properties of a sheet form one map in which the last declaration of a name wins, wherever
it stands. The definitions are resolved first, each with its own name in progress, and then the
text of the sheet; at last the custom properties are dropped. A sheet that spells no reference is
left as it is, comments included.
-/
namespace ThemeCss.Variables

open Scan Sheet

/-- The custom properties declared in innermost blocks, in order. -/
def customDeclarations (css : Text) : List Declaration :=
  (blockBodies css).flatMap fun body => (Declaration.parseAll body).filter (·.isCustom)

/-- A declaration with an empty value defines nothing. -/
def definitions (css : Text) : Definitions :=
  Entries.ofList <| ((customDeclarations css).filter (!·.value.isEmpty)).map fun declaration =>
    (declaration.property, declaration.value)

/-- Each definition resolved as far as the others allow. -/
def resolveAll (raw : Definitions) : Definitions :=
  raw.map fun (name, value) => (name, resolve raw [name] value)

/-- A sheet without comments, its references replaced and its custom properties dropped. -/
def flatten (source : Text) : Text :=
  let expanded := resolve (resolveAll (definitions source)) [] source
  if (customDeclarations expanded).isEmpty then expanded else dropCustom expanded

def expand (css : Text) : Text :=
  if spellsReference css then flatten (Comment.strip css) else css

theorem expand_of_unspelled {css : Text} (unspelled : spellsReference css = false) :
    expand css = css := by
  simp [expand, unspelled]

theorem expand_of_spelled {css : Text} (spelled : spellsReference css = true) :
    expand css = flatten (Comment.strip css) := by
  simp [expand, spelled]

end ThemeCss.Variables
