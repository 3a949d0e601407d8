import ThemeCss.Markup.Element
import ThemeCss.Markup.Escape
import ThemeCss.Markup.Tree
import ThemeCss.Text.Blank

/-!
# Tokens of markup

Markup is cut into tags, comments, declarations and the text between them, each as far as its own
end; one that does not end takes the rest. Names are in lower case and references are read. Of
attributes with one name the first counts. The content of an element that holds no markup is one
text, up to the element's own end tag.
-/
namespace ThemeCss.Markup

inductive Token where
  | text (content : Text)
  | comment (content : Text)
  | declaration (content : Text)
  | opening (tag : Tag)
  | closing (name : Text)
  deriving DecidableEq, Repr

/-- Separates the parts of a tag. -/
def isGap (c : Char) : Bool := c == ' ' || c == '\t' || c == '\n' || c == '\r' || c == '\x0c'

/-- Ends the name of a tag. -/
def endsTagName (c : Char) : Bool := isGap c || c == '>' || c == '/'

/-- Ends the name of an attribute. -/
def endsAttributeName (c : Char) : Bool := endsTagName c || c == '='

/-- Reads a value, quoted or up to the next blank, and what follows it. -/
def readValue : Text → Text × Text
  | [] => ([], [])
  | c :: rest =>
    if c = '"' ∨ c = '\'' then
      (unescape (rest.takeWhile (· != c)), (rest.dropWhile (· != c)).tail)
    else
      let bare (c : Char) := !isGap c && c != '>'
      (unescape ((c :: rest).takeWhile bare), (c :: rest).dropWhile bare)

theorem readValue_length_le (text : Text) : (readValue text).2.length ≤ text.length := by
  cases text with
  | nil => simp [readValue]
  | cons c rest =>
    simp only [readValue]
    split
    · have shorter := Text.dropWhile_length_le (· != c) rest
      simp only [List.length_tail, List.length_cons]
      omega
    · exact Text.dropWhile_length_le _ _

/-- Reads the value of an attribute, when an equals sign follows its name. -/
def readValue? (text : Text) : Option Text × Text :=
  match text.dropWhile isGap with
  | '=' :: rest =>
    let (value, after) := readValue (rest.dropWhile isGap)
    (some value, after)
  | _ => (none, text)

theorem readValue?_length_le (text : Text) : (readValue? text).2.length ≤ text.length := by
  simp only [readValue?]
  split
  next rest found =>
    have ahead := Text.dropWhile_rest_length found
    have value := readValue_length_le (rest.dropWhile isGap)
    have gaps := Text.dropWhile_length_le isGap rest
    simp only
    omega
  next => exact Nat.le_refl _

/-- Reads attributes up to the end of their tag, and what follows it. -/
def readAttributes (text : Text) : List Attribute × Text :=
  match _start : text.dropWhile (fun c => isGap c || c == '/' || c == '=') with
  | [] => ([], [])
  | c :: rest =>
    if c = '>' then ([], rest)
    else
      let name := (c :: rest.takeWhile (!endsAttributeName ·)).map Char.toLower
      let value := readValue? (rest.dropWhile (!endsAttributeName ·))
      let (attributes, after) := readAttributes value.2
      -- A later attribute of the same name does not count.
      (⟨name, value.1⟩ :: attributes.filter (·.name != name), after)
termination_by text.length
decreasing_by
  have ahead := Text.dropWhile_rest_length _start
  have name := Text.dropWhile_length_le (!endsAttributeName ·) rest
  have value := readValue?_length_le (rest.dropWhile (!endsAttributeName ·))
  omega

theorem readAttributes_length_le (text : Text) :
    (readAttributes text).2.length ≤ text.length := by
  fun_induction readAttributes text with
  | case1 => simp
  | case2 text rest start =>
    have ahead := Text.dropWhile_rest_length start
    simp only
    omega
  | case3 text c rest start _ name value attributes after read ih =>
    have ahead := Text.dropWhile_rest_length start
    have named := Text.dropWhile_length_le (!endsAttributeName ·) rest
    have valued : value.2.length ≤ _ := readValue?_length_le (rest.dropWhile (!endsAttributeName ·))
    simp only [read] at ih
    simp only
    omega

/-- The text up to a closing mark and what follows it; everything when the mark is missing. -/
def upTo (mark text : Text) : Text × Text := (Text.splitAtWord? mark text).getD (text, [])

theorem upTo_length_le (mark text : Text) : (upTo mark text).2.length ≤ text.length := by
  simp only [upTo]
  cases found : Text.splitAtWord? mark text with
  | none => simp
  | some parts =>
    obtain ⟨before, after⟩ := parts
    have size := Text.splitAtWord?_length found
    simp only [Option.getD_some]
    omega

/-- A comment ends at two hyphens and a bracket, an exclamation mark between them or not. -/
def upToCommentEnd : Text → Text × Text
  | [] => ([], [])
  | '-' :: '-' :: '>' :: rest => ([], rest)
  | '-' :: '-' :: '!' :: '>' :: rest => ([], rest)
  | c :: rest => (c :: (upToCommentEnd rest).1, (upToCommentEnd rest).2)

theorem upToCommentEnd_length_le (text : Text) :
    (upToCommentEnd text).2.length ≤ text.length := by
  fun_induction upToCommentEnd text with
  | case1 => simp
  | case2 =>
    simp only [List.length_cons]
    omega
  | case3 =>
    simp only [List.length_cons]
    omega
  | case4 c rest _ _ ih => exact Nat.le_succ_of_le ih

/-- Reads a comment behind its opening mark, which may share its hyphens with the closing one. -/
def readComment : Text → Text × Text
  | '>' :: rest => ([], rest)
  | '-' :: '>' :: rest => ([], rest)
  | source => upToCommentEnd source

theorem readComment_length_le (text : Text) : (readComment text).2.length ≤ text.length := by
  simp only [readComment]
  split
  next => simp
  next =>
    simp only [List.length_cons]
    omega
  next => exact upToCommentEnd_length_le text

/-- Reads the name of a tag, its attributes and what follows it. -/
def readTag (text : Text) : Tag × Text :=
  let attributes := readAttributes (text.dropWhile (!endsTagName ·))
  (⟨(text.takeWhile (!endsTagName ·)).map Char.toLower, attributes.1⟩, attributes.2)

theorem readTag_length_le (text : Text) : (readTag text).2.length ≤ text.length := by
  have name := Text.dropWhile_length_le (!endsTagName ·) text
  have size := readAttributes_length_le (text.dropWhile (!endsTagName ·))
  simp only [readTag]
  omega

/-- Whether a tag's name starts here. -/
def startsName (text : Text) : Bool := text.head?.any Char.isAlpha

/-- Reads the token behind an opening angle bracket, if there is one. An end tag without a name is a
comment. -/
def readToken? : Text → Option (Token × Text)
  | '!' :: '-' :: '-' :: rest => some (.comment (readComment rest).1, (readComment rest).2)
  | '!' :: rest => some (.declaration (upTo ['>'] rest).1, (upTo ['>'] rest).2)
  | '/' :: rest =>
    if startsName rest then some (.closing (readTag rest).1.name, (readTag rest).2)
    else some (.comment (upTo ['>'] rest).1, (upTo ['>'] rest).2)
  | source =>
    if startsName source then some (.opening (readTag source).1, (readTag source).2) else none

theorem readToken?_length_le {text after : Text} {token : Token}
    (found : readToken? text = some (token, after)) : after.length ≤ text.length := by
  simp only [readToken?] at found
  split at found
  next rest =>
    simp only [Option.some.injEq, Prod.mk.injEq] at found
    obtain ⟨_, rfl⟩ := found
    have size := readComment_length_le rest
    simp only [List.length_cons]
    omega
  next rest _ =>
    simp only [Option.some.injEq, Prod.mk.injEq] at found
    obtain ⟨_, rfl⟩ := found
    have size := upTo_length_le ['>'] rest
    simp only [List.length_cons]
    omega
  next rest =>
    have tag := readTag_length_le rest
    have size := upTo_length_le ['>'] rest
    split at found
    all_goals
      simp only [Option.some.injEq, Prod.mk.injEq] at found
      obtain ⟨_, rfl⟩ := found
      simp only [List.length_cons]
      omega
  next =>
    split at found
    · simp only [Option.some.injEq, Prod.mk.injEq] at found
      obtain ⟨_, rfl⟩ := found
      exact readTag_length_le text
    · simp at found

/-- Whether the end tag of an element stands here. -/
def startsEndTag (name : Text) : Text → Bool
  | '<' :: '/' :: rest =>
    (rest.take name.length).map Char.toLower == name &&
      (rest.drop name.length).head?.any endsTagName
  | _ => false

/-- The text up to the end tag of an element and the text from there on. -/
def upToEndTag (name : Text) : Text → Text × Text
  | [] => ([], [])
  | c :: rest =>
    if startsEndTag name (c :: rest) then ([], c :: rest)
    else (c :: (upToEndTag name rest).1, (upToEndTag name rest).2)

theorem upToEndTag_length_le (name text : Text) :
    (upToEndTag name text).2.length ≤ text.length := by
  induction text with
  | nil => simp [upToEndTag]
  | cons c rest ih =>
    simp only [upToEndTag]
    split
    · exact Nat.le_refl _
    · exact Nat.le_succ_of_le ih

/-- A text token, if there is text. -/
def textTokens (content : Text) : List Token := if content.isEmpty then [] else [.text content]

/-- Reads the content behind the start tag of an element that holds no markup. -/
def readContent (token : Token) (text : Text) : List Token × Text :=
  match token with
  | .opening tag =>
    let inside := upToEndTag tag.name text
    match contentOf tag.name with
    | .raw => (textTokens inside.1, inside.2)
    | .escapable => (textTokens (unescape inside.1), inside.2)
    | .void | .markup => ([], text)
  | _ => ([], text)

theorem readContent_length_le (token : Token) (text : Text) :
    (readContent token text).2.length ≤ text.length := by
  simp only [readContent]
  split
  next tag =>
    have inside := upToEndTag_length_le tag.name text
    cases contentOf tag.name with
    | raw => exact inside
    | escapable => exact inside
    | void => exact Nat.le_refl _
    | markup => exact Nat.le_refl _
  next => exact Nat.le_refl _

def tokens (text : Text) : List Token :=
  match text with
  | [] => []
  | c :: rest =>
    let ink := rest.takeWhile (· != '<')
    if c = '<' then
      match _read : readToken? rest with
      | some (token, after) =>
        token :: (readContent token after).1 ++ tokens (readContent token after).2
      -- A bracket that opens nothing is text, with what follows it.
      | none => .text (unescape (c :: ink)) :: tokens (rest.dropWhile (· != '<'))
    else .text (unescape (c :: ink)) :: tokens (rest.dropWhile (· != '<'))
termination_by text.length
decreasing_by
  · have shorter := readToken?_length_le _read
    have content := readContent_length_le token after
    simp only [List.length_cons]
    omega
  all_goals
    have shorter := Text.dropWhile_length_le (· != '<') rest
    simp only [List.length_cons]
    omega

/-- The tokens of a text whose line ends are of any kind. -/
def readTokens (text : Text) : List Token := tokens (Text.unifyLineEnds text)

end ThemeCss.Markup
