import ThemeCss.Markup.Character
import ThemeCss.Markup.Escape
import ThemeCss.Markup.Tree

/-!
# The library of documents

Markup is read and written by a library that is no part of the program, and the library says which
characters a document takes. What is asked of it is named here, and whatever handles markup is
written for any such library.
-/
namespace ThemeCss.Markup

/-- A library that reads and writes markup and holds it as elements, comments and text. -/
class Library where
  /-- Why a text is not read. -/
  Fault : Type
  /-- Whether a fault says that the text cannot be read as markup; others are not to be expected. -/
  refuses : Fault → Bool
  message : Fault → String
  /-- Reads a fragment: its leading text if that is not blank, and the elements and comments with
  the text behind each. -/
  read : Text → Except Fault (List Markup)
  /-- Writes an element or a comment and the text behind it. -/
  write : Markup → Text → Text
  /-- Whether a character can stand in a text or an attribute that is set. -/
  allows : Char → Bool
  /-- The characters of XML can. -/
  allows_of_isAllowed : ∀ {c : Char}, isAllowed c = true → allows c = true

variable [Library]

/-- Whether a text, or an attribute, can be set to this. -/
def isSettable (text : Text) : Bool := text.all Library.allows

/-- Writes what an element holds: its leading text, which is escaped, and its nodes one by one. -/
def publish (forest : List Markup) : Text :=
  escape ((leadingText? forest).getD []) ++
    (nodes forest).flatMap fun node => Library.write node.1 node.2

/-- What is said of a text that cannot be set. -/
def forbiddenMessage : String :=
  "All strings must be XML compatible: Unicode or ASCII, no NULL bytes or control characters"

end ThemeCss.Markup
