import ThemeCss.Markup.Character
import ThemeCss.Text.Blank

/-!
# Character references

Ampersands and angle brackets are written as references, in text and in attributes. Two forms pass
through attributes as they are: comments, by which servers include files, and script macros, which
are an ampersand and braces. Reading knows the references that are written, the quotation mark, the
no-break space and numbers, whose semicolon may be missing; anything else that starts with an
ampersand stays as it is.
-/
namespace ThemeCss.Markup

def escapeChar (c : Char) : Text :=
  match c with
  | '&' => "&amp;".toList
  | '<' => "&lt;".toList
  | '>' => "&gt;".toList
  | c => [c]

def escape (text : Text) : Text := text.flatMap escapeChar

/-- The text through the first occurrence of a word, and the text after it. -/
def splitThrough? (word text : Text) : Option (Text × Text) :=
  (Text.splitAtWord? word text).map fun (before, after) => (before ++ word, after)

/-- A comment or a macro at the start of the text, and the text after it. -/
def passage? : Text → Option (Text × Text)
  | '<' :: rest =>
    if Text.startsWith "!--".toList rest then splitThrough? "-->".toList ('<' :: rest) else none
  | '&' :: rest => if Text.startsWith ['{'] rest then splitThrough? ['}'] ('&' :: rest) else none
  | _ => none

theorem splitThrough?_sound {word text passed after : Text}
    (found : splitThrough? word text = some (passed, after)) : text = passed ++ after := by
  simp only [splitThrough?, Option.map_eq_some_iff, Prod.mk.injEq] at found
  obtain ⟨⟨before, rest⟩, split, rfl, rfl⟩ := found
  exact Text.splitAtWord?_sound split

theorem splitThrough?_length {word text passed after : Text} (ink : word ≠ [])
    (found : splitThrough? word text = some (passed, after)) : after.length < text.length := by
  simp only [splitThrough?, Option.map_eq_some_iff, Prod.mk.injEq] at found
  obtain ⟨⟨before, rest⟩, split, rfl, rfl⟩ := found
  have size := Text.splitAtWord?_length split
  have room := List.length_pos_iff.mpr ink
  simp only
  omega

theorem passage?_length {text passed after : Text}
    (found : passage? text = some (passed, after)) : after.length < text.length := by
  simp only [passage?] at found
  split at found
  next =>
    split at found
    · exact splitThrough?_length (by simp) found
    · simp at found
  next =>
    split at found
    · exact splitThrough?_length (by simp) found
    · simp at found
  next => simp at found

def escapeAttribute (text : Text) : Text :=
  match text with
  | [] => []
  | c :: rest =>
    match _passed : passage? (c :: rest) with
    | some (passed, after) => passed ++ escapeAttribute after
    | none => escapeChar c ++ escapeAttribute rest
termination_by text.length
decreasing_by
  · have shorter := passage?_length _passed
    simp only [List.length_cons] at *
    omega
  · simp

def quoteReference : Text := "&quot;".toList

/-- A written value in quotes: double ones, except that a value that holds those and no single ones
is put in single quotes. -/
def quoted (written : Text) : Text :=
  if !written.contains '"' then ['"'] ++ written ++ ['"']
  else if !written.contains '\'' then ['\''] ++ written ++ ['\'']
  else ['"'] ++ (written.flatMap fun c => if c = '"' then quoteReference else [c]) ++ ['"']

def namedReferences : List (Text × Char) :=
  [("amp", '&'), ("lt", '<'), ("gt", '>'), ("quot", '"'), ("nbsp", '\u00a0')].map
    fun (name, c) => (name.toList, c)

/-- The character that a name before a semicolon refers to, and the text after it. -/
def readNamed? (text : Text) : Option (Char × Text) :=
  match Text.splitAtWord? [';'] text with
  | some (name, after) =>
    (namedReferences.find? (·.1 == name)).map fun (_, c) => (c, after)
  | none => none

def digitIn? (base : Nat) (c : Char) : Option Nat :=
  let value? :=
    if '0' ≤ c ∧ c ≤ '9' then some (c.toNat - '0'.toNat)
    else if 'a' ≤ c.toLower ∧ c.toLower ≤ 'f' then some (c.toLower.toNat - 'a'.toNat + 10)
    else none
  value?.filter (· < base)

def numberIn (base : Nat) (digits : Text) : Nat :=
  digits.foldl (fun total c => base * total + (digitIn? base c).getD 0) 0

/-- The character that a number refers to, and the text after it and its semicolon. -/
def readNumber? (base : Nat) (text : Text) : Option (Char × Text) :=
  let isDigit (c : Char) := (digitIn? base c).isSome
  match text.takeWhile isDigit with
  | [] => none
  | digits =>
    let after := text.dropWhile isDigit
    some (charOfNumber (numberIn base digits), if after.head? = some ';' then after.tail else after)

/-- Reads the reference behind an ampersand. -/
def readReference? : Text → Option (Char × Text)
  | '#' :: 'x' :: rest => readNumber? 16 rest
  | '#' :: 'X' :: rest => readNumber? 16 rest
  | '#' :: rest => readNumber? 10 rest
  | source => readNamed? source

theorem readNumber?_length {base : Nat} {text after : Text} {c : Char}
    (found : readNumber? base text = some (c, after)) : after.length ≤ text.length := by
  simp only [readNumber?] at found
  split at found
  next => simp at found
  next =>
    simp only [Option.some.injEq, Prod.mk.injEq] at found
    obtain ⟨_, rfl⟩ := found
    have shorter := Text.dropWhile_length_le (fun c => (digitIn? base c).isSome) text
    split
    · simp only [List.length_tail]
      omega
    · exact shorter

theorem readNamed?_length {text after : Text} {c : Char}
    (found : readNamed? text = some (c, after)) : after.length ≤ text.length := by
  simp only [readNamed?] at found
  split at found
  next name rest split =>
    simp only [Option.map_eq_some_iff, Prod.mk.injEq] at found
    obtain ⟨_, _, _, rfl⟩ := found
    have size := Text.splitAtWord?_length split
    omega
  next => simp at found

theorem readReference?_length {text after : Text} {c : Char}
    (found : readReference? text = some (c, after)) : after.length ≤ text.length := by
  simp only [readReference?] at found
  split at found
  next =>
    have shorter := readNumber?_length found
    simp only [List.length_cons]
    omega
  next =>
    have shorter := readNumber?_length found
    simp only [List.length_cons]
    omega
  next =>
    have shorter := readNumber?_length found
    simp only [List.length_cons]
    omega
  next => exact readNamed?_length found

def unescape (text : Text) : Text :=
  match text with
  | [] => []
  | c :: rest =>
    if c = '&' then
      match _read : readReference? rest with
      | some (value, after) => value :: unescape after
      | none => c :: unescape rest
    else c :: unescape rest
termination_by text.length
decreasing_by
  · have shorter := readReference?_length _read
    simp only [List.length_cons]
    omega
  all_goals simp

end ThemeCss.Markup
