import ThemeCss.Text.Basic

/-!
# Markup

Markup is a forest of elements, comments and text. An element has a start tag and children. An
attribute may stand without a value, which differs from an empty one when it is written.
-/
namespace ThemeCss

structure Attribute where
  name : Text
  value : Option Text
  deriving DecidableEq, Repr

/-- The name and the attributes of an element, in source order. -/
structure Tag where
  name : Text
  attributes : List Attribute
  deriving DecidableEq, Repr

inductive Markup where
  | text (content : Text)
  | comment (content : Text)
  | element (tag : Tag) (children : List Markup)

namespace Tag

def has (tag : Tag) (name : Text) : Bool := tag.attributes.any (·.name == name)

/-- The value of an attribute; empty when it stands without one. -/
def value? (tag : Tag) (name : Text) : Option Text :=
  (tag.attributes.find? (·.name == name)).map (·.value.getD [])

/-- Gives an attribute a value in its place, or adds it at the end. -/
def set (tag : Tag) (name value : Text) : Tag :=
  if tag.has name then
    { tag with attributes := tag.attributes.map fun entry =>
        if entry.name = name then { entry with value := some value } else entry }
  else { tag with attributes := tag.attributes ++ [⟨name, some value⟩] }

def drop (tag : Tag) (name : Text) : Tag :=
  { tag with attributes := tag.attributes.filter (·.name != name) }

end Tag

namespace Markup

mutual

def decEq : (first second : Markup) → Decidable (first = second)
  | .text content, .text other => decidable_of_iff (content = other) (by simp)
  | .comment content, .comment other => decidable_of_iff (content = other) (by simp)
  | .element tag children, .element other others =>
    match decEqForest children others with
    | isTrue same => decidable_of_iff (tag = other) (by simp [same])
    | isFalse different => isFalse (by simp [different])
  | .text _, .comment _ | .text _, .element .. | .comment _, .text _ | .comment _, .element ..
  | .element .., .text _ | .element .., .comment _ => isFalse (by simp)

def decEqForest : (first second : List Markup) → Decidable (first = second)
  | [], [] => isTrue rfl
  | markup :: forest, other :: others =>
    match decEq markup other, decEqForest forest others with
    | isTrue same, isTrue alike => isTrue (by rw [same, alike])
    | isFalse different, _ => isFalse (by simp [different])
    | _, isFalse different => isFalse (by simp [different])
  | [], _ :: _ | _ :: _, [] => isFalse (by simp)

end

instance : DecidableEq Markup := decEq

def tag? : Markup → Option Tag
  | .element tag _ => some tag
  | _ => none

/-- The names of the elements side by side. -/
def elementNames (forest : List Markup) : List Text :=
  forest.filterMap fun markup => markup.tag?.map (·.name)

/-- The text in front of the first element or comment. -/
def leadingText? : List Markup → Option Text
  | .text content :: forest => some (content ++ (leadingText? forest).getD [])
  | _ => none

/-- The elements and comments side by side, each with the text behind it. -/
def nodes : List Markup → List (Markup × Text)
  | [] => []
  | .text _ :: forest => nodes forest
  | markup :: forest => (markup, (leadingText? forest).getD []) :: nodes forest

end Markup
end ThemeCss
