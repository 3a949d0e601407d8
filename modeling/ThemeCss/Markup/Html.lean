import ThemeCss.Markup.Reader
import ThemeCss.Markup.Staging
import ThemeCss.Markup.Writer

/-!
# The library in use

The program reads and writes markup as HTML, and a document takes the characters of XML.
-/
namespace ThemeCss.Markup

instance : Library where
  Fault := ReadError
  refuses _ := true
  message := ReadError.message
  read := readFragment
  write := writeNode
  allows := isAllowed
  allows_of_isAllowed := id

/-- The one way in which the library in use fails to read markup. -/
@[match_pattern] def StageError.emptyDocument : StageError := .unreadable ReadError.emptyDocument

end ThemeCss.Markup
