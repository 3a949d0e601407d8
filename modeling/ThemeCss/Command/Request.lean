import ThemeCss.Command.Option

/-!
# Requests

The command line asks for one task on one file, or for the version, or for help. Help and version
answer before anything else is looked at, the first of them given, but only a line that can be read.
-/
namespace ThemeCss.Command

inductive Task where
  | expand
  | dark (expandFirst : Bool)
  | resolve
  | lint (ignored : List Text)

structure Job where
  task : Task
  verbose : Bool
  input : Text
  output : Option Text

inductive Request where
  | version
  | help
  | job (job : Job)

inductive GroupKey where
  | verbose
  | version
  | help
  deriving DecidableEq

inductive TaskKey where
  | output
  | expand
  | noExpand
  | ignore
  | help
  deriving DecidableEq

def groupOptions : List (OptionKind GroupKey) :=
  [⟨.verbose, ["--verbose".toList, "-v".toList], false⟩, ⟨.version, ["--version".toList], false⟩,
    ⟨.help, ["--help".toList], false⟩]

def helpOption : OptionKind TaskKey := ⟨.help, ["--help".toList], false⟩

def outputOption : OptionKind TaskKey := ⟨.output, ["--output".toList, "-o".toList], true⟩

def expandOptions : List (OptionKind TaskKey) :=
  [⟨.expand, ["--expand".toList], false⟩, ⟨.noExpand, ["--no-expand".toList], false⟩]

def ignoreOption : OptionKind TaskKey := ⟨.ignore, ["--ignore".toList], true⟩

/-- The options of a command by its name, and its task once they are known. -/
def command? (name : Text) :
    Option (List (OptionKind TaskKey) × (List (TaskKey × Option Text) → Task)) :=
  if name = "expand".toList then some ([outputOption, helpOption], fun _ => .expand)
  else if name = "dark".toList then
    some (outputOption :: helpOption :: expandOptions, fun options =>
      .dark ((options.filter fun (key, _) => key = .expand ∨ key = .noExpand).getLast?.all
        fun (key, _) => key = .expand))
  else if name = "resolve".toList then some ([outputOption, helpOption], fun _ => .resolve)
  else if name = "lint".toList then
    some ([ignoreOption, helpOption], fun options =>
      .lint (options.filterMap fun (key, value) => if key = .ignore then value else none))
  else none

/-- The value of the last output option; an empty one counts as none. -/
def outputOf (options : List (TaskKey × Option Text)) : Option Text :=
  ((options.filter fun (key, _) => key = .output).getLast?.bind (·.2)).filter (!·.isEmpty)

def readTask (verbose : Bool) (name : Text) (arguments : List Text) :
    Except UsageError Request :=
  match command? name with
  | none => .error (.unknownCommand name)
  | some (kinds, task) => do
    let given ← readArguments kinds false arguments
    if given.options.any fun (key, _) => key = .help then return .help
    else match given.others with
      | [] => .error .missingArgument
      | [input] => return .job ⟨task given.options, verbose, input, outputOf given.options⟩
      | _ :: extra :: _ => .error (.extraArgument extra)

def readRequest (arguments : List Text) : Except UsageError Request := do
  let given ← readArguments groupOptions true arguments
  match given.options.find? fun (key, _) => key ≠ .verbose with
  | some (.version, _) => return .version
  | some _ => return .help
  | none =>
    match given.others with
    | [] => .error .missingCommand
    | name :: rest => readTask (given.options.any fun (key, _) => key = .verbose) name rest

end ThemeCss.Command
