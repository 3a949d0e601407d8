import ThemeCss.Dark.Converter
import ThemeCss.Variables.Expand

/-!
# Pipeline

A sheet is expanded, then converted to dark when a converter is given, and then passes through
further steps in order.
-/
namespace ThemeCss

open Dark

/-- A step from text to text. -/
abbrev Step := Text → Text

def Step.append (addition : Text) : Step := (· ++ addition)

def Step.replace (word replacement : Text) : Step := Text.replace word replacement

/-- Expands a sheet and converts it to dark. -/
def darken (converter : Converter) (css : Text) : Except ColourError Text × Converter :=
  converter.convert (Variables.expand css)

/-- What the steps make of a sheet, one after the other. -/
def applySteps (steps : List Step) (css : Text) : Text :=
  steps.foldl (fun css step => step css) css

def transform (converter : Option Converter) (further : List Step) (css : Text) :
    Except ColourError Text :=
  match converter with
  | none => .ok (applySteps further (Variables.expand css))
  -- Further steps see the dark sheet, and none is taken when conversion fails.
  | some converter => (darken converter css).1.map (applySteps further)

end ThemeCss
