import ThemeCss.Text.Basic

/-!
# Roles

The role of a colour is what it paints, as far as the dark theme treats colours differently: a
surface, the text on it, a decoration, or a vivid colour to be kept.
-/
namespace ThemeCss

inductive Role where
  | heading
  | body
  | background
  | table
  | tableText
  | blockquote
  | blockquoteText
  | code
  | codeText
  | decorativeDark
  | vibrantProtected
  | selection
  | selectionText
  | other
  deriving DecidableEq, Repr

namespace Role

def all : List Role :=
  [heading, body, background, table, tableText, blockquote, blockquoteText, code, codeText,
    decorativeDark, vibrantProtected, selection, selectionText, other]

def name : Role → String
  | heading => "heading"
  | body => "body"
  | background => "background"
  | table => "table"
  | tableText => "table-text"
  | blockquote => "blockquote"
  | blockquoteText => "blockquote-text"
  | code => "code"
  | codeText => "code-text"
  | decorativeDark => "decorative-dark"
  | vibrantProtected => "vibrant-protected"
  | selection => "selection"
  | selectionText => "selection-text"
  | other => "other"

def ofName? (name : String) : Option Role := all.find? (·.name == name)

/-- Foreground roles, whose colours are moved by luminance. -/
def isText : Role → Bool
  | heading | body | other | tableText | blockquoteText | codeText | selectionText => true
  | _ => false

/-- The role of text in a region of this role. -/
def textVariant (base : Role) (isCode : Bool) : Role :=
  match base with
  | table => tableText
  | blockquote => blockquoteText
  | selection => selectionText
  | code => codeText
  | background => if isCode then codeText else other
  | role => if isCode then codeText else role

/-- The role of the surface of a region of this role. -/
def backgroundVariant (base : Role) (isCode : Bool) : Role :=
  match base with
  | table | blockquote | selection | code => base
  | _ => if isCode then code else background

end Role
end ThemeCss
