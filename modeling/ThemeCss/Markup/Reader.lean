import ThemeCss.Markup.Token
import ThemeCss.Text.Caseless

/-!
# Reading markup

Tokens are gathered into elements from left to right: a start tag opens an element, unless it is
void, and an end tag closes the nearest open one of its name with all that is open inside it. A
fragment is the content of a body, its leading text left out when it is blank. Markup that starts
like a document is read as one, and its body is the fragment; without any content it is refused.
-/
namespace ThemeCss.Markup

/-- An element being read, with the forest in front of it, both in reverse. -/
structure Opened where
  before : List Markup
  tag : Tag

/-- Text that touches text becomes one. -/
def addText (content : Text) : List Markup → List Markup
  | .text earlier :: forest => .text (earlier ++ content) :: forest
  | forest => .text content :: forest

/-- Closes open elements down to the nearest one with the name. -/
def closeThrough (name : Text) : List Opened → List Markup → List Opened × List Markup
  | [], forest => ([], forest)
  | opened :: outer, forest =>
    let closed := .element opened.tag forest.reverse :: opened.before
    if opened.tag.name = name then (outer, closed) else closeThrough name outer closed

def closeAll : List Opened → List Markup → List Markup
  | [], forest => forest
  | opened :: outer, forest =>
    closeAll outer (.element opened.tag forest.reverse :: opened.before)

/-- Reads one token, inside the open elements and behind the reversed forest. -/
def gatherToken : List Opened × List Markup → Token → List Opened × List Markup
  | (stack, forest), .text content => (stack, addText content forest)
  | (stack, forest), .comment content => (stack, .comment content :: forest)
  | state, .declaration _ => state
  | (stack, forest), .opening tag =>
    if isVoid tag.name then (stack, .element tag [] :: forest) else (⟨forest, tag⟩ :: stack, [])
  | (stack, forest), .closing name =>
    if stack.any (·.tag.name == name) then closeThrough name stack forest else (stack, forest)

def gather (tokens : List Token) : List Markup :=
  let (stack, forest) := tokens.foldl gatherToken ([], [])
  (closeAll stack forest).reverse

/-- Whether the markup starts like a whole document. -/
def isDocument (text : Text) : Bool :=
  let start := Text.trimLeft text
  Text.startsWithKeyword "<html".toList start || Text.startsWithKeyword "<!doctype".toList start

def isBlankText : Token → Bool
  | .text content => content.all Text.isBlank
  | _ => false

def isDeclaration : Token → Bool
  | .declaration _ => true
  | _ => false

/-- The tags of the document itself. -/
def isFrame : Token → Bool
  | .opening tag => tag.name == "html".toList || tag.name == "body".toList
  | .closing name => name == "html".toList || name == "body".toList
  | _ => false

/-- What the body of a document holds, up to its last end tag if it has one. -/
def bodyTokens (tokens : List Token) : List Token :=
  let inside := tokens.dropWhile fun token =>
    isFrame token || isBlankText token || isDeclaration token
  match inside.reverse.dropWhile (· != .closing "body".toList) with
  | [] => inside.filter (!isFrame ·)
  | _ :: content => content.reverse.filter (!isFrame ·)

/-- Why markup is not read. -/
inductive ReadError where
  | emptyDocument

def ReadError.message : ReadError → String
  | .emptyDocument => "Document is empty"

def dropLeadingBlank : List Markup → List Markup
  | .text content :: forest =>
    if content.all Text.isBlank then forest else .text content :: forest
  | forest => forest

def readFragment (text : Text) : Except ReadError (List Markup) :=
  let all := readTokens text
  if isDocument text && all.all fun token => isDeclaration token || isBlankText token then
    .error .emptyDocument
  else .ok (dropLeadingBlank (gather (if isDocument text then bodyTokens all else all)))

/-- Text that is no document of its own is read whole. -/
theorem readFragment_of_part {text : Text} (part : isDocument text = false) :
    readFragment text = .ok (dropLeadingBlank (gather (readTokens text))) := by
  simp [readFragment, part]

/-- Reads a document around the content of its body. -/
def readDocument (text : Text) : Markup :=
  .element ⟨"html".toList, []⟩
    [.element ⟨"body".toList, []⟩ (gather (bodyTokens (readTokens text)))]

/-- Reads a document that is one element, which has no content where the text holds none. -/
def readElement (text : Text) : Markup :=
  ((gather (readTokens text)).find? fun markup => markup.tag?.isSome).getD (readDocument [])

end ThemeCss.Markup
