import ThemeCss.Text.Basic

/-!
# Diagnostics

A finding names its rule, says how serious it is and what is wrong, and may know the line it is on
and what to do about it.
-/
namespace ThemeCss.Lint

inductive Severity where
  | error
  | warning
  | info
  deriving DecidableEq, Repr

namespace Severity

def all : List Severity := [error, warning, info]

def name : Severity → String
  | error => "ERROR"
  | warning => "WARNING"
  | info => "INFO"

def ofName? (name : String) : Option Severity := all.find? (·.name == name)

end Severity

structure Diagnostic where
  rule : Text
  severity : Severity
  message : Text
  line : Option Int := none
  fix : Option Text := none
  deriving DecidableEq, Repr

namespace Diagnostic

def isError (diagnostic : Diagnostic) : Bool := diagnostic.severity == .error

def isWarning (diagnostic : Diagnostic) : Bool := diagnostic.severity == .warning

/-- The line in brackets, when it is known. -/
def location (diagnostic : Diagnostic) : Text :=
  match diagnostic.line with
  | none => []
  | some line => " [line=".toList ++ (toString line).toList ++ [']']

def text (diagnostic : Diagnostic) : Text :=
  diagnostic.severity.name.toList ++ diagnostic.location ++ [':', ' '] ++ diagnostic.message

/-- Findings without a line come first. -/
def place (diagnostic : Diagnostic) : Int := diagnostic.line.getD 0

end Diagnostic

def count (severity : Severity) (diagnostics : List Diagnostic) : Nat :=
  diagnostics.countP (·.severity == severity)

end ThemeCss.Lint
