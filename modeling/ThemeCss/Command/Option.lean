import ThemeCss.Text.Basic

/-!
# Options

Arguments are read from left to right. A long option takes its value behind an equals sign or from
the next argument; short ones may share a hyphen, and the first that takes a value takes the rest.
Two hyphens end the options. Where options must come first, so does any other argument.
-/
namespace ThemeCss.Command

inductive UsageError where
  | unknownOption (name : Text)
  | missingValue (name : Text)
  | unexpectedValue (name : Text)
  | missingCommand
  | unknownCommand (name : Text)
  | missingArgument
  | extraArgument (argument : Text)
  | missingFile (path : Text)
  | isDirectory (path : Text)
  deriving DecidableEq, Repr

def UsageError.message : UsageError → Text
  | .unknownOption name => "No such option: ".toList ++ name
  | .missingValue name => "Option requires an argument: ".toList ++ name
  | .unexpectedValue name => "Option does not take a value: ".toList ++ name
  | .missingCommand => "Missing command.".toList
  | .unknownCommand name => "No such command: ".toList ++ name
  | .missingArgument => "Missing argument.".toList
  | .extraArgument argument => "Got unexpected extra argument: ".toList ++ argument
  | .missingFile path => "File does not exist: ".toList ++ path
  | .isDirectory path => "File is a directory: ".toList ++ path

/-- An option with its spellings. -/
structure OptionKind (Key : Type) where
  key : Key
  names : List Text
  takesValue : Bool

/-- The options given, each with its value if it takes one, and the other arguments. -/
structure Given (Key : Type) where
  options : List (Key × Option Text)
  others : List Text

variable {Key : Type}

def kindOf? (kinds : List (OptionKind Key)) (name : Text) : Option (OptionKind Key) :=
  kinds.find? (·.names.contains name)

/-- Options read from one argument; a key at the end still wants its value. -/
abbrev Pending (Key : Type) := List (Key × Option Text) × Option Key

/-- Reads short options that share a hyphen. -/
def readShort (kinds : List (OptionKind Key)) : Text → Except UsageError (Pending Key)
  | [] => .ok ([], none)
  | letter :: rest =>
    match kindOf? kinds ['-', letter] with
    | none => .error (.unknownOption ['-', letter])
    | some kind =>
      if kind.takesValue then
        if rest.isEmpty then .ok ([], some kind.key) else .ok ([(kind.key, some rest)], none)
      else (readShort kinds rest).map fun (options, pending) =>
        ((kind.key, none) :: options, pending)

def readLong (kinds : List (OptionKind Key)) (argument : Text) :
    Except UsageError (Pending Key) :=
  let (name, value) :=
    match Text.splitAtWord? ['='] argument with
    | some (name, value) => (name, some value)
    | none => (argument, none)
  match kindOf? kinds name, value with
  | none, _ => .error (.unknownOption name)
  | some kind, some value =>
    if kind.takesValue then .ok ([(kind.key, some value)], none)
    else .error (.unexpectedValue name)
  | some kind, none =>
    if kind.takesValue then .ok ([], some kind.key) else .ok ([(kind.key, none)], none)

def readOption (kinds : List (OptionKind Key)) (argument : Text) :
    Except UsageError (Pending Key) :=
  match argument with
  | '-' :: '-' :: _ => readLong kinds argument
  | _ :: letters => readShort kinds letters
  | [] => .ok ([], none)

/-- A lone hyphen is no option. -/
def isOption : Text → Bool
  | '-' :: _ :: _ => true
  | _ => false

def Given.withOptions (options : List (Key × Option Text)) (given : Given Key) : Given Key :=
  { given with options := options ++ given.options }

def readArguments (kinds : List (OptionKind Key)) (optionsFirst : Bool) :
    List Text → Except UsageError (Given Key)
  | [] => .ok ⟨[], []⟩
  | argument :: rest =>
    if argument = ['-', '-'] then .ok ⟨[], rest⟩
    else if isOption argument then
      match readOption kinds argument with
      | .error cause => .error cause
      | .ok (options, none) =>
        (readArguments kinds optionsFirst rest).map (·.withOptions options)
      | .ok (options, some key) =>
        match rest with
        | [] => .error (.missingValue argument)
        | value :: rest =>
          (readArguments kinds optionsFirst rest).map
            (·.withOptions (options ++ [(key, some value)]))
    else if optionsFirst then .ok ⟨[], argument :: rest⟩
    else (readArguments kinds optionsFirst rest).map fun given =>
      { given with others := argument :: given.others }

end ThemeCss.Command
