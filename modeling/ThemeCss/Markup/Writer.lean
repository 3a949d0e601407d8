import ThemeCss.Markup.Address
import ThemeCss.Markup.Element
import ThemeCss.Markup.Escape
import ThemeCss.Markup.Tree
import ThemeCss.Text.Fragment

/-!
# Writing markup

Elements are written with start and end tags, void elements with a start tag alone. Text is escaped
except inside raw elements. A switch is written without its value, which says nothing beyond its
name, and an address is encoded. What is written declares no content type: wherever such a
declaration comes to stand in the text, it is left out.
-/
namespace ThemeCss.Markup

/-- Attributes whose presence alone counts. -/
def switchNames : List Text :=
  ["checked", "compact", "declare", "defer", "disabled", "ismap", "multiple", "nohref", "noresize",
    "noshade", "nowrap", "readonly", "selected"].map String.toList

def isSwitch (name : Text) : Bool := switchNames.contains name

def writeValue (element name value : Text) : Text :=
  let escaped := escapeAttribute value
  quoted (if namesAddress element name then encodeAddress escaped else escaped)

def writeAttribute (element : Text) (entry : Attribute) : Text :=
  [' '] ++ entry.name ++ (match entry.value with
    | none => []
    | some value => if isSwitch entry.name then [] else '=' :: writeValue element entry.name value)

def writeStart (tag : Tag) : Text :=
  ['<'] ++ tag.name ++ tag.attributes.flatMap (writeAttribute tag.name) ++ ['>']

def writeEnd (tag : Tag) : Text :=
  if isVoid tag.name then [] else ['<', '/'] ++ tag.name ++ ['>']

mutual

/-- Writes what stands inside an element, a raw one or another. -/
def writeInside (raw : Bool) : Markup → Text
  | .text content => if raw then content else escape content
  | .comment content => "<!--".toList ++ content ++ "-->".toList
  | .element tag children =>
    writeStart tag ++ writeAllInside (isRaw tag.name) children ++ writeEnd tag

def writeAllInside (raw : Bool) : List Markup → Text
  | [] => []
  | markup :: forest => writeInside raw markup ++ writeAllInside raw forest

end

def contentTypeStart : Text := "<meta http-equiv=\"Content-Type\"".toList

/-- A declaration of the content type, up to the next closing bracket. -/
def contentTypeMatcher : Text.Matcher Unit := fun _ text =>
  (Text.dropWord? contentTypeStart text).bind fun rest =>
    let content := rest.takeWhile (· != '>')
    if content.length < rest.length then some ((), contentTypeStart.length + content.length + 1)
    else none

/-- Writes an element or a comment and the text behind it. -/
def writeNode (markup : Markup) (tail : Text) : Text :=
  Text.rewrite contentTypeMatcher (fun _ _ => []) (writeInside false markup ++ escape tail)

end ThemeCss.Markup
