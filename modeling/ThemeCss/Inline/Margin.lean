import ThemeCss.Entries
import ThemeCss.Scan.Reference
import ThemeCss.Scan.Split
import ThemeCss.Sheet.Declaration

/-!
# Paragraph margins

The margins of a paragraph are written side by side: a shorthand is spread over the four sides, and
the last declaration of a side counts. A shorthand that still holds a reference cannot be spread and
stays where it is. One with no components or more than four sets no side, and goes when another
declaration does.
-/
namespace ThemeCss.Inline

open Sheet

inductive Side where
  | top
  | right
  | bottom
  | left
  deriving DecidableEq, Repr

namespace Side

def all : List Side := [top, right, bottom, left]

def name : Side → Text
  | top => "top".toList
  | right => "right".toList
  | bottom => "bottom".toList
  | left => "left".toList

def property (side : Side) : Text := "margin-".toList ++ side.name

def ofProperty? (property : Text) : Option Side := all.find? (·.property == property)

end Side

/-- The values a shorthand gives to the sides; opposite sides share what is missing. -/
def spread (value : Text) : List (Side × Text) :=
  let sides (top right bottom left : Text) : List (Side × Text) :=
    [(.top, top), (.right, right), (.bottom, bottom), (.left, left)]
  match Scan.components value with
  | [all] => sides all all all all
  | [vertical, horizontal] => sides vertical horizontal vertical horizontal
  | [top, horizontal, bottom] => sides top horizontal bottom horizontal
  | [top, right, bottom, left] => sides top right bottom left
  | _ => []

/-- The margins set so far, and the other declarations. -/
structure Margins where
  sides : Entries Side Declaration
  others : List Declaration

def Margins.add (margins : Margins) (declaration : Declaration) : Margins :=
  if declaration.property = "margin".toList ∧ ¬ Scan.hasReference declaration.value then
    let longhands := (spread declaration.value).map fun (side, value) =>
      (side, ({ property := side.property, value, important := declaration.important } :
        Declaration))
    { margins with sides := Entries.merge margins.sides longhands }
  else match Side.ofProperty? declaration.property with
    | some side => { margins with sides := Entries.set margins.sides side declaration }
    | none => { margins with others := margins.others ++ [declaration] }

/-- The declarations with margins by side at the end; none when no margin is set. -/
def rewriteMargins? (declarations : List Declaration) : Option (List Declaration) :=
  let margins := declarations.foldl Margins.add ⟨[], []⟩
  if margins.sides.isEmpty then none
  else some (margins.others ++ Side.all.filterMap fun side => Entries.find? margins.sides side)

end ThemeCss.Inline
