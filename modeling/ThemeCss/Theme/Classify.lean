import ThemeCss.Text.Alphanumeric
import ThemeCss.Text.Blank
import ThemeCss.Text.Caseless
import ThemeCss.Text.Fragment
import ThemeCss.Text.Lowercase
import ThemeCss.Theme.Tuning

/-!
# Classifying declarations

A closed list of keywords decides what a rule is about: neither specificity nor the cascade plays a
part. Selections and decorations go first, then callouts, wherever in the selector they are named.
The other keywords count only outside pseudo-classes, except that the content of a negation is kept.
A declaration's property then picks the surface or the text of that region; lines and shadows are
judged by their own colour.
-/
namespace ThemeCss.Theme

/-- Whether the test holds at some place of a text behind the character `before`. -/
def holdsAt (test : Option Char → Text → Bool) (before : Option Char) : Text → Bool
  | [] => test before []
  | c :: rest => test before (c :: rest) || holdsAt test (some c) rest

/-- Whether the place is a word boundary with one of the words behind it. -/
def startsAny (words : List Text) (before : Option Char) (text : Text) : Bool :=
  !Text.isWord? before && words.any (Text.startsWith · text)

/-- Whether one of the words stands here with boundaries on both sides. -/
def standsAny (words : List Text) (before : Option Char) (text : Text) : Bool :=
  !Text.isWord? before && words.any fun word =>
    match Text.dropWord? word text with
    | some after => !Text.isWord? after.head?
    | none => false

def calloutWords : List Text :=
  ["blockquote", "callout", "multiquote", "tip", "note", "warning", "danger", "success", "info",
    "caution", "card", "paper", "footnote", "custom-block", "imageflow-caption"].map String.toList

def codeStarts : List Text := ["pre", "code", "hljs", "language-"].map String.toList

def tableWords : List Text := ["table", "tr", "th", "td", "theader"].map String.toList

def headingWords : List Text := ["h1", "h2", "h3", "h4", "h5", "h6"].map String.toList

def bodyWords : List Text := ["p", "li", "section", "span"].map String.toList

def backgroundMarks : List Text := ["background", "bg-", "color-"].map String.toList

def decorations : List Text :=
  ["::before", "::after", "::marker", "::backdrop", "::placeholder"].map String.toList

/-- The content of a negation. -/
def negationMatcher : Text.Matcher Text := fun _ text =>
  match Text.dropWord? ":not(".toList text with
  | none => none
  | some rest =>
    let content := rest.takeWhile (· != ')')
    if content.length < rest.length then some (content, content.length + 6) else none

/-- The length of parenthesised text at the start, when it closes. -/
def parenthesised : Text → Nat
  | '(' :: rest =>
    let content := rest.takeWhile (· != ')')
    if content.length < rest.length then content.length + 2 else 0
  | _ => 0

/-- A pseudo-class or pseudo-element with its arguments. -/
def pseudoMatcher : Text.Matcher Unit
  | _, ':' :: rest =>
    -- One colon or two, then a name, then arguments if they close.
    let colons := if rest.head? = some ':' then 1 else 0
    let named := rest.drop colons
    let size := (named.takeWhile Text.isName).length
    if size = 0 then none
    else some ((), 1 + colons + size + parenthesised (named.dropWhile Text.isName))
  | _, _ => none

/-- A selector without its pseudo-classes, or whole when nothing else is in it. -/
def bareSelector (lowered : Text) : Text :=
  let unnegated := Text.rewrite negationMatcher (fun content _ => content) lowered
  let bare := Text.trim (Text.rewrite pseudoMatcher (fun _ _ => []) unnegated)
  if bare.isEmpty then lowered else bare

/-- What the rules of a selector are about. -/
def regionOf (selector : Text) : Role :=
  let lowered := Text.lower selector
  let target := bareSelector lowered
  -- The order of the tests is the order of precedence.
  if Text.holds "::selection".toList lowered then .selection
  else if decorations.any (Text.holds · lowered) then .decorativeDark
  else if holdsAt (standsAny calloutWords) none lowered then .blockquote
  else if holdsAt (startsAny codeStarts) none target then .code
  else if holdsAt (standsAny tableWords) none target then .table
  else if holdsAt (standsAny headingWords) none target then .heading
  else if holdsAt (standsAny bodyWords) none target then .body
  else if backgroundMarks.any (Text.holds · target) then .background
  else .other

def namesCode (selector : Text) : Bool :=
  holdsAt (startsAny codeStarts) none (Text.lower selector)

def isSurfaceProperty (property : Text) : Bool :=
  Text.holdsKeyword "background".toList property || Text.holdsKeyword "bgcolor".toList property

def isEdgeProperty (property : Text) : Bool :=
  Text.holdsKeyword "shadow".toList property || Text.holdsKeyword "border".toList property ||
    Text.holdsKeyword "outline".toList property

variable {α : Type} [Scalar α]

/-- The role a line or a shadow takes from its own colour, when that is near black or vivid. -/
def edgeRole? (tuning : Tuning α) (colour : Rgb α) : Except ColourError (Option Role) :=
  if Colour.luminance colour < tuning.nearBlackLuminance then .ok (some .decorativeDark)
  else do
    let hsl ← Colour.toHsl colour
    return if tuning.vibrantSaturation < hsl.saturation then some .vibrantProtected else none

def classify (tuning : Tuning α) (selector property : Text) (colour : Option (Rgb α)) :
    Except ColourError Role := do
  let base := regionOf selector
  let isCode := namesCode selector
  if isSurfaceProperty property then return base.backgroundVariant isCode
  else if isEdgeProperty property then
    let own ← match colour with
      | none => pure none
      | some colour => edgeRole? tuning colour
    return own.getD (base.textVariant isCode)
  else if Text.isKeyword "color".toList property then return base.textVariant isCode
  else return base

end ThemeCss.Theme
