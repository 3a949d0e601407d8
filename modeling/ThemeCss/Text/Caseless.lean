import ThemeCss.Text.Basic

/-!
# Words in any case

Keywords are written in lower case here and met in any case. Beyond the two ASCII cases a letter
also meets the characters that case folding identifies with it: the long s, the Kelvin sign, and the
dotted capital and dotless small i.
-/
namespace ThemeCss.Text

def meetsLetter (letter c : Char) : Bool :=
  c.toLower == letter || (letter == 's' && c == 'ſ') || (letter == 'k' && c == '\u212A') ||
    (letter == 'i' && (c == 'İ' || c == 'ı'))

/-- What follows the keyword when the text starts with it in some case. -/
def dropKeyword? : Text → Text → Option Text
  | [], text => some text
  | _ :: _, [] => none
  | letter :: word, c :: text => if meetsLetter letter c then dropKeyword? word text else none

def startsWithKeyword (word text : Text) : Bool := (dropKeyword? word text).isSome

def holdsKeyword (word : Text) : Text → Bool
  | [] => word.isEmpty
  | c :: rest => startsWithKeyword word (c :: rest) || holdsKeyword word rest

/-- Whether the text is the keyword in some case. -/
def isKeyword (word text : Text) : Bool := dropKeyword? word text == some []

theorem dropKeyword?_length {word text after : Text}
    (found : dropKeyword? word text = some after) : text.length = word.length + after.length := by
  induction word generalizing text with
  | nil => simp_all [dropKeyword?]
  | cons letter word ih =>
    cases text with
    | nil => simp [dropKeyword?] at found
    | cons c text =>
      simp only [dropKeyword?] at found
      split at found
      · have rest := ih found
        simp only [List.length_cons]
        omega
      · simp at found

end ThemeCss.Text
