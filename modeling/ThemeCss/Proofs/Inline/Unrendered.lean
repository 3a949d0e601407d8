import ThemeCss.Inline.Resolve
import ThemeCss.Proofs.Text.Attempt
import ThemeCss.Proofs.Variables.Reach

/-!
# Styles without a renderer

Nobody is asked for a live value, so the style that an element ends up with is an equation in its
declarations and the definitions inherited: every regular value is resolved as text.
-/
namespace ThemeCss.Inline

open Sheet Variables

variable {Failure : Type}

/-- The declarations of an element's style. -/
def declarationsOf (tag : Tag) : List Declaration := parse ((tag.value? styleName).getD [])

/-- The custom properties that an element declares, as they are written. -/
def definitionsOf (tag : Tag) : Definitions := localDefinitions (declarationsOf tag)

def regularOf (tag : Tag) : List Declaration := (declarationsOf tag).filter (!·.isCustom)

/-- A declaration with its value resolved as text. -/
def resolved (scope : Definitions) (declaration : Declaration) : Declaration :=
  { declaration with value := resolve scope [] declaration.value }

/-- The declarations that an element keeps, and whether its margins were rewritten. -/
def settledOf (scope : Definitions) (tag : Tag) : List Declaration × Bool :=
  settleMargins tag ((regularOf tag).map (resolved scope))

/-- Whether the style of an element changes. -/
def isTouched (scope : Definitions) (tag : Tag) : Bool :=
  !(definitionsOf tag).isEmpty || (regularOf tag).any (Scan.hasReference ·.value) ||
    (settledOf scope tag).2

variable [Markup.Library]

theorem resolveDeclaration_unrendered (tag : Tag) (scope : Definitions)
    (declaration : Declaration) :
    resolveDeclaration (noLiveStyle : LiveStyle Failure Id) tag scope declaration
      = pure (resolved scope declaration) := by
  rw [resolveDeclaration]
  split
  next => rfl
  next free =>
    have same : resolve scope [] declaration.value = declaration.value :=
      resolve_of_referenceFree (by simpa using free) scope []
    rw [resolved, same]

theorem resolveTag_unrendered (inherited : Definitions) (tag : Tag) :
    resolveTag (noLiveStyle : LiveStyle Failure Id) inherited tag
      = let scope := scopeInside inherited (definitionsOf tag)
        if isTouched scope tag then do return (← setStyle tag (settledOf scope tag).1, scope)
        else pure (tag, scope) := by
  have each : ∀ scope, resolveDeclaration (noLiveStyle : LiveStyle Failure Id) tag scope
      = fun declaration => pure (resolved scope declaration) := fun scope =>
    funext fun declaration => resolveDeclaration_unrendered tag scope declaration
  simp only [resolveTag, each, List.mapM_pure, pure_bind]
  rfl

end ThemeCss.Inline
