import ThemeCss.Sheet.Declaration
import ThemeCss.Text.Lowercase

/-!
# Inline styles

A style attribute holds declarations; malformed ones are skipped and the names of regular properties
are read in lower case, for custom properties alone keep their case. Every declaration is written
with a semicolon behind it.
-/
namespace ThemeCss.Inline

open Sheet

def lowerProperty (declaration : Declaration) : Declaration :=
  if declaration.isCustom then declaration
  else { declaration with property := Text.lower declaration.property }

def parse (style : Text) : List Declaration :=
  ((Declaration.parseAll style).filter (!·.isMalformed)).map lowerProperty

def write (declarations : List Declaration) : Text :=
  if declarations.isEmpty then []
  else Text.join [';', ' '] (declarations.map Declaration.write) ++ [';']

end ThemeCss.Inline
