import ThemeCss.Text.Fragment

/-!
# Comments

A comment runs from a slash and star to the nearest star and slash behind them, wherever it stands;
strings do not protect their content. Stripping removes comments. Blanking keeps every character's
place and line instead.
-/
namespace ThemeCss.Scan.Comment

def matcher : Text.Matcher Unit
  | _, '/' :: '*' :: rest =>
    (Text.splitAtWord? ['*', '/'] rest).map fun (body, _) => ((), body.length + 4)
  | _, _ => none

def strip (text : Text) : Text := Text.rewrite matcher (fun _ _ => []) text

def blank (text : Text) : Text :=
  Text.rewrite matcher (fun _ covered => covered.map fun c => if c = '\n' then c else ' ') text

end ThemeCss.Scan.Comment
