import ThemeCss.Decimal.Write
import ThemeCss.Lint.Rules

/-!
# Validation

A text is checked by every rule that is not ignored, and the findings are put in the order of their
lines. The order is stable: on one line findings keep the order of the rules, and those of one rule
the order in which it found them.
-/
namespace ThemeCss.Lint

/-- The built-in rules with their names, in the order they are applied. -/
def builtIn : List (Text × Rule) :=
  [(unresolvedName, checkReferences), (declaredName, checkCustomProperties),
    (bracesName, checkBraces)]

def validate (text : Text) (extra : List (Text × Rule)) (ignored : List Text) : List Diagnostic :=
  let applied := (builtIn ++ extra).filter fun (name, _) => !ignored.contains name
  (applied.flatMap fun (_, rule) => rule text).mergeSort fun first second =>
    decide (first.place ≤ second.place)

/-- The findings of a text without errors, or else its errors. -/
def demandClean (text : Text) (extra : List (Text × Rule)) :
    Except (List Diagnostic) (List Diagnostic) :=
  let diagnostics := validate text extra []
  let errors := diagnostics.filter (·.isError)
  if errors.isEmpty then .ok diagnostics else .error errors

/-- How a failed validation is reported. -/
def failureMessage (errors : List Diagnostic) : Text :=
  "Validation failed with ".toList ++ Decimal.digits errors.length ++ " error(s): ".toList ++
    Text.join [';', ' '] (errors.map Diagnostic.text)

end ThemeCss.Lint
