import ThemeCss.Command.Run

/-!
# The program

Looks up what the paths on the command line name, runs the command and carries out its outcome.
-/
open ThemeCss ThemeCss.Command

/-- A path whose content cannot be read although it is there is a directory. -/
def lookUp (path : Text) : IO Entry := do
  try
    return .file (← IO.FS.readBinFile (String.ofList path))
  catch
    | .noFileOrDirectory .. => return .missing
    | .inappropriateType .. => return .directory
    | _ => return .missing

def surroundingsOf (job : Job) : IO Surroundings := do
  match job.output with
  | none => return ⟨← lookUp job.input, .missing, .missing⟩
  | some path =>
    return ⟨← lookUp job.input, ← lookUp path, ← lookUp (placeOf path)⟩

def failureText : Failure → String
  | .undecodable => "The input is not valid UTF-8."
  | .missingPlace => "The directory of the output does not exist."
  | .notDirectory => "The place of the output is not a directory."
  | .colour cause => cause.message
  | .forbiddenCharacter => Markup.forbiddenMessage

def main (args : List String) : IO UInt32 := do
  let arguments := args.map String.toList
  let surroundings ← match readRequest arguments with
    | .ok (.job job) => surroundingsOf job
    | _ => pure ⟨.missing, .missing, .missing⟩
  let outcome := run (fun _ => surroundings) arguments
  if let some (path, content) := outcome.written then
    IO.FS.writeFile (String.ofList path) (String.ofList content)
  IO.print (String.ofList outcome.stdout)
  IO.eprint (String.ofList outcome.stderr)
  if let some failure := outcome.failure then
    IO.eprintln (failureText failure)
  return outcome.exitCode.toUInt32
