import ThemeCss.Text.Basic

/-!
# Blank characters

The white space of every reader in this library: the ASCII controls from tab to carriage return and
the four information separators, the ASCII space, and the spaces and line separators of Unicode.
Trimming drops blanks at an end and nothing else, so a trimmed text starts and ends with ink.
-/
namespace ThemeCss.Text

def isBlank (c : Char) : Bool :=
  let n := c.toNat
  (9 ≤ n && n ≤ 13) || (28 ≤ n && n ≤ 32) || n == 0x85 || n == 0xA0 || n == 0x1680 ||
    (0x2000 ≤ n && n ≤ 0x200A) || n == 0x2028 || n == 0x2029 || n == 0x202F || n == 0x205F ||
    n == 0x3000

def trimLeft (text : Text) : Text := text.dropWhile isBlank

def trimRight (text : Text) : Text := (text.reverse.dropWhile isBlank).reverse

def trim (text : Text) : Text := trimRight (trimLeft text)

theorem dropWhile_length_le (p : Char → Bool) (text : Text) :
    (text.dropWhile p).length ≤ text.length := (List.dropWhile_sublist p).length_le

theorem dropWhile_rest_length {p : Char → Bool} {text rest : Text} {c : Char}
    (found : text.dropWhile p = c :: rest) : rest.length < text.length := by
  have shorter := dropWhile_length_le p text
  simp only [found, List.length_cons] at shorter
  omega

/-- The runs of ink between blanks. -/
def words (text : Text) : List Text :=
  match _start : trimLeft text with
  | [] => []
  | c :: rest =>
    (c :: rest.takeWhile (!isBlank ·)) :: words (rest.dropWhile (!isBlank ·))
termination_by text.length
decreasing_by
  have shorter := dropWhile_length_le isBlank text
  have tail := dropWhile_length_le (!isBlank ·) rest
  simp only [trimLeft] at _start
  simp only [_start, List.length_cons] at shorter
  omega

end ThemeCss.Text
