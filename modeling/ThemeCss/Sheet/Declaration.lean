import ThemeCss.Scan.Split
import ThemeCss.Text.Caseless

/-!
# Declarations

A declaration pairs a property with a value, split at the first colon, with a mark that makes it
important. A chunk that lacks a property or a value is malformed: it is kept, and written back as
the one part it has.
-/
namespace ThemeCss.Sheet

structure Declaration where
  property : Text
  value : Text := []
  important : Bool := false
  deriving DecidableEq, Repr

namespace Declaration

/-- What stands before a keyword at the end of a reversed text. -/
def beforeLast? (word reversed : Text) : Option Text := Text.dropKeyword? word.reverse reversed

/-- A trimmed value without its closing importance mark, when it has one. -/
def dropImportant? (value : Text) : Option Text :=
  match beforeLast? "important".toList value.reverse with
  | none => none
  | some reversed =>
    -- Blanks may stand between the sign and its word.
    match reversed.dropWhile Text.isBlank with
    | '!' :: rest => some (Text.trim rest.reverse)
    | _ => none

def parse (chunk : Text) : Declaration :=
  match Text.splitAtWord? [':'] chunk with
  | none => { property := Text.trim chunk }
  | some (name, rest) =>
    let value := Text.trim rest
    match dropImportant? value with
    | some plain => { property := Text.trim name, value := plain, important := true }
    | none => { property := Text.trim name, value := value }

/-- Custom properties are named with two leading hyphens. -/
def isCustomName (name : Text) : Bool := Text.startsWith ['-', '-'] name

def isCustom (declaration : Declaration) : Bool := isCustomName declaration.property

def isMalformed (declaration : Declaration) : Bool :=
  declaration.property.isEmpty || declaration.value.isEmpty

def write (declaration : Declaration) : Text :=
  if declaration.property.isEmpty then declaration.value
  else if declaration.value.isEmpty then declaration.property
  else
    declaration.property ++ [':', ' '] ++ declaration.value ++
      (if declaration.important then " !important".toList else [])

/-- The declarations of a block, in source order. -/
def parseAll (body : Text) : List Declaration := (Scan.chunks body).map parse

/-- The compact form of a block. -/
def writeAll (declarations : List Declaration) : Text :=
  Text.join [';'] (declarations.map write)

end Declaration
end ThemeCss.Sheet
