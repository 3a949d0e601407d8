import ThemeCss.Inline.Margin
import ThemeCss.Inline.Style
import ThemeCss.Markup.Staging
import ThemeCss.Variables.Resolve

/-!
# Resolving inline styles

Every element sees the custom properties of its ancestors, nearer ones first, and its own before
those. Its own are resolved where they are declared and passed down resolved. Regular declarations
take the live value that a renderer reports for them, or else are resolved as text; then the custom
properties are dropped. A style that needs nothing of this is left as it was written. The walk ends
at the first failure: the renderer's own, or a style with a character that no document takes.
-/
namespace ThemeCss.Inline

open Sheet Variables

/-- Asks a renderer for the value of a property on an element. -/
abbrev LiveStyle (Failure : Type) (m : Type → Type) := Tag → Text → ExceptT Failure m (Option Text)

/-- No renderer: every value is resolved as text. -/
def noLiveStyle {Failure : Type} {m : Type → Type} [Monad m] : LiveStyle Failure m :=
  fun _ _ => pure none

def styleName : Text := "style".toList

def localDefinitions (declarations : List Declaration) : Definitions :=
  Entries.ofList <| (declarations.filter (·.isCustom)).map fun declaration =>
    (declaration.property, declaration.value)

/-- The definitions that hold inside an element. -/
def scopeInside (inherited declared : Definitions) : Definitions :=
  Entries.merge inherited <| declared.map fun (name, value) =>
    (name, resolve (declared ++ inherited) [name] value)

/-- Paragraphs have their margins rewritten; says whether that changed anything. -/
def settleMargins (tag : Tag) (declarations : List Declaration) : List Declaration × Bool :=
  if tag.name = ['p'] then
    match rewriteMargins? declarations with
    | some rewritten => (rewritten, true)
    | none => (declarations, false)
  else (declarations, false)

variable [Markup.Library]

/-- Why inline styles could not be resolved. -/
inductive StyleError (Failure : Type) where
  | unstaged (cause : Markup.StageError)
  | forbiddenCharacter
  | renderer (failure : Failure)

/-- A step of the walk, which asks a renderer and may fail. -/
abbrev Walk (Failure : Type) (m : Type → Type) := ExceptT (StyleError Failure) m

variable {Failure : Type} {m : Type → Type} [Monad m]

/-- A live value counts when it is there and holds no reference itself. -/
def resolveValue (live : LiveStyle Failure m) (tag : Tag) (scope : Definitions)
    (declaration : Declaration) : Walk Failure m Text := do
  match ← ExceptT.adapt .renderer (live tag declaration.property) with
  | some value =>
    if value.isEmpty || Scan.hasReference value then return resolve scope [] declaration.value
    else return Text.trim value
  | none => return resolve scope [] declaration.value

def resolveDeclaration (live : LiveStyle Failure m) (tag : Tag) (scope : Definitions)
    (declaration : Declaration) : Walk Failure m Declaration := do
  if Scan.hasReference declaration.value then
    return { declaration with value := ← resolveValue live tag scope declaration }
  else return declaration

/-- Gives an element its settled style; one without declarations is dropped. -/
def setStyle (tag : Tag) (settled : List Declaration) : Walk Failure m Tag :=
  if settled.isEmpty then pure (tag.drop styleName)
  else if Markup.isSettable (write settled) then pure (tag.set styleName (write settled))
  else throw .forbiddenCharacter

/-- Resolves the style of one element and answers the scope inside it. -/
def resolveTag (live : LiveStyle Failure m) (inherited : Definitions) (tag : Tag) :
    Walk Failure m (Tag × Definitions) := do
  let declarations := parse ((tag.value? styleName).getD [])
  let declared := localDefinitions declarations
  let scope := scopeInside inherited declared
  let regular := declarations.filter (!·.isCustom)
  let resolved ← regular.mapM (resolveDeclaration live tag scope)
  let (settled, moved) := settleMargins tag resolved
  let changed := !declared.isEmpty || regular.any (Scan.hasReference ·.value) || moved
  if changed then return (← setStyle tag settled, scope) else return (tag, scope)

mutual

/-- Walks an element in place: when the walk fails, the elements before stay rewritten. -/
def walkMarkup (live : LiveStyle Failure m) (scope : Definitions) :
    Markup → m (Markup × Except (StyleError Failure) Unit)
  | .element tag children => do
    match ← (resolveTag live scope tag).run with
    | .error cause => return (.element tag children, .error cause)
    | .ok (settled, inner) =>
      let (forest, ending) ← walkForest live inner children
      return (.element settled forest, ending)
  | markup => pure (markup, .ok ())

def walkForest (live : LiveStyle Failure m) (scope : Definitions) :
    List Markup → m (List Markup × Except (StyleError Failure) Unit)
  | [] => pure ([], .ok ())
  | markup :: forest => do
    match ← walkMarkup live scope markup with
    | (markup, .error cause) => return (markup :: forest, .error cause)
    | (markup, .ok ()) =>
      let (forest, ending) ← walkForest live scope forest
      return (markup :: forest, ending)

end

/-- Resolves the markup on stage, where a walk that fails leaves what it has rewritten. -/
def resolveStage (live : LiveStyle Failure m) (stage : Markup.Stage) :
    m (Except (StyleError Failure) Text × Markup.Stage) := do
  let (forest, ending) ← walkForest live [] stage.forest
  return (ending.map fun () => Markup.publish forest, stage.replace forest)

/-- Markup with its inline styles resolved, and the document afterwards. Markup that spells no
reference is not even read. -/
def resolveStyles (live : LiveStyle Failure m) (document : Markup) (markup : Text) :
    m (Except (StyleError Failure) Text × Markup) :=
  if Scan.spellsReference markup then do
    match ← Markup.onStage document markup (resolveStage live) with
    | .error cause => return (.error (.unstaged cause), document)
    | .ok (outcome, stage) => return (outcome, stage.document)
  else return (.ok markup, document)

end ThemeCss.Inline
