import ThemeCss.Dark.Value
import ThemeCss.Sheet.Reader
import ThemeCss.Theme.Classify

/-!
# Converting sheets

Each declaration is classified by its rule, its property and its first colour, and its value is
converted for that role. Nothing else changes: nodes keep their order and nesting. Malformed
declarations and values with an address stay. Blocks of descriptors are classified by their prelude.
-/
namespace ThemeCss.Dark

open Sheet

def holdsAddress (value : Text) : Bool := Text.holdsKeyword ['u', 'r', 'l', '('] value

def convertDeclaration (tuning : Tuning Float) (selector : Text) (declaration : Declaration) :
    Except ColourError Declaration :=
  if declaration.isMalformed || holdsAddress declaration.value then .ok declaration
  else do
    -- The first colour decides the role for every colour of the value.
    let role ← Theme.classify tuning selector declaration.property
      (Colour.firstColour? declaration.value)
    return { declaration with value := ← convertValue tuning role declaration.value }

def convertDeclarations (tuning : Tuning Float) (selector : Text)
    (declarations : List Declaration) : Except ColourError (List Declaration) :=
  declarations.mapM (convertDeclaration tuning selector)

mutual

def convertNode (tuning : Tuning Float) : Node → Except ColourError Node
  | .rule selector declarations => do
    return .rule selector (← convertDeclarations tuning selector declarations)
  | .statement prelude => .ok (.statement prelude)
  | .group prelude children => do return .group prelude (← convertNodes tuning children)
  | .block prelude body => do
    let declarations ← convertDeclarations tuning prelude (Declaration.parseAll body)
    return .block prelude (Declaration.writeAll declarations)

def convertNodes (tuning : Tuning Float) : List Node → Except ColourError (List Node)
  | [] => .ok []
  | node :: nodes => do
    let node ← convertNode tuning node
    return node :: (← convertNodes tuning nodes)

end

def convertSheet (tuning : Tuning Float) (sheet : Sheet) : Except ColourError Sheet := do
  return { sheet with nodes := ← convertNodes tuning sheet.nodes }

/-- The dark form of a style sheet, marked as such. -/
def convertText (tuning : Tuning Float) (css : Text) : Except ColourError Text := do
  return conversionMarker ++ ['\n'] ++ (← convertSheet tuning (Sheet.parse css)).write

end ThemeCss.Dark
