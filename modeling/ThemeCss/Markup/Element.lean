import ThemeCss.Text.Basic

/-!
# Kinds of elements

What an element's name says about its content. Void elements have none. Raw elements hold text in
which nothing is markup and nothing a reference; escapable ones hold text with references. The
content of all others is markup.
-/
namespace ThemeCss.Markup

inductive Content where
  | void
  | raw
  | escapable
  | markup
  deriving DecidableEq, Repr

def voidNames : List Text :=
  ["area", "base", "basefont", "bgsound", "br", "col", "embed", "frame", "hr", "img", "input",
    "keygen", "link", "meta", "param", "source", "track", "wbr"].map String.toList

def rawNames : List Text :=
  ["iframe", "noembed", "noframes", "script", "style", "xmp"].map String.toList

def escapableNames : List Text := ["textarea", "title"].map String.toList

def contentOf (name : Text) : Content :=
  if voidNames.contains name then .void
  else if rawNames.contains name then .raw
  else if escapableNames.contains name then .escapable
  else .markup

def isVoid (name : Text) : Bool := contentOf name == .void

def isRaw (name : Text) : Bool := contentOf name == .raw

end ThemeCss.Markup
