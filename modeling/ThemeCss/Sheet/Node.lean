import ThemeCss.Sheet.Declaration

/-!
# Style sheets

A sheet is a sequence of nodes and the text that could not be read. A rule applies declarations to a
selector. An at-rule is a statement, which ends at its semicolon, a group of further nodes, or a
block of descriptors whose body stays text.
-/
namespace ThemeCss

inductive Sheet.Node where
  | rule (selector : Text) (declarations : List Sheet.Declaration)
  | statement (prelude : Text)
  | group (prelude : Text) (children : List Sheet.Node)
  | block (prelude : Text) (body : Text)

structure Sheet where
  nodes : List Sheet.Node
  trailing : Text := []

namespace Sheet

mutual

/-- The compact form of a node. -/
def Node.write : Node → Text
  | .rule selector declarations =>
    selector ++ ['{'] ++ Declaration.writeAll declarations ++ ['}']
  | .statement prelude => prelude ++ [';']
  | .group prelude children => prelude ++ ['{'] ++ Node.writeAll children ++ ['}']
  | .block prelude body => prelude ++ ['{'] ++ body ++ ['}']

def Node.writeAll : List Node → Text
  | [] => []
  | node :: nodes => node.write ++ Node.writeAll nodes

end

def write (sheet : Sheet) : Text := Node.writeAll sheet.nodes ++ sheet.trailing

end Sheet
end ThemeCss
