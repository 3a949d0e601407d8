import ThemeCss.Command.Request
import ThemeCss.Inline.Resolve
import ThemeCss.Lint.Validate
import ThemeCss.Markup.Html
import ThemeCss.Pipeline

/-!
# Running a command

A command reads one file and answers what it prints, what it writes to a file and how it exits: zero
for success, one for findings and failures, two for a line that cannot be used. It is given what the
paths on its line name, so running it is a function. Line ends of a file are read as line breaks,
whichever of the three kinds they are. What is printed loses its styling, what is written keeps it.
-/
namespace ThemeCss.Command

open Dark

/-- What a path names. -/
inductive Entry where
  | missing
  | directory
  | file (bytes : ByteArray)

/-- What the input, the output and the place of the output name. -/
structure Surroundings where
  input : Entry
  output : Entry
  place : Entry

/-- A failure that is not reported but ends the program. -/
inductive Failure where
  | undecodable
  | missingPlace
  | notDirectory
  | colour (cause : ColourError)
  | forbiddenCharacter

structure Outcome where
  exitCode : Nat := 0
  stdout : Text := []
  stderr : Text := []
  written : Option (Text × Text) := none
  failure : Option Failure := none

def line (text : Text) : Text := text ++ ['\n']

def decode? (bytes : ByteArray) : Option Text :=
  (String.fromUTF8? bytes).map fun text => Text.unifyLineEnds text.toList

/-- The parts of a path between slashes. -/
def pathParts (path : Text) : List Text :=
  (path.splitOn '/').filter fun part => !part.isEmpty && part != ['.']

/-- The name of the file a path leads to. -/
def fileName (path : Text) : Text := (pathParts path).getLastD []

/-- The path of the directory that holds a path. -/
def placeOf (path : Text) : Text :=
  let above := Text.join ['/'] (pathParts path).dropLast
  if path.head? = some '/' then '/' :: above
  else if above.isEmpty then ['.']
  else above

/-- A sequence that a terminal takes as a change of style. -/
def styleChangeMatcher : Text.Matcher Unit
  | _, '\x1b' :: '[' :: rest =>
    let isParameter (c : Char) := c.isDigit || c == ';' || c == '?'
    if (rest.dropWhile isParameter).head?.any Char.isAlpha then
      some ((), (rest.takeWhile isParameter).length + 3)
    else none
  | _, _ => none

/-- What is printed where no terminal shows styles. -/
def printed (text : Text) : Text := Text.rewrite styleChangeMatcher (fun _ _ => []) text

/-- A line of the debugging log. -/
def logLine (logger message : String) : Text :=
  line ("DEBUG pressroom.transforms.".toList ++ logger.toList ++ [':', ' '] ++ message.toList)

def expansionLog (css : Text) : Text :=
  if Scan.spellsReference css then
    let count := (Variables.definitions (Scan.Comment.strip css)).length
    logLine "variable_expansion" ("Expanding " ++ toString count ++ " custom properties")
  else []

def conversionLog (converter : Converter) (css : Text) : Text :=
  let about (what : String) (key : Text) :=
    logLine "dark_mode" ("Dark conversion cache " ++ what ++ " for " ++ String.ofList key)
  match converter.route css with
  | .marked => []
  | .hit key _ => about "hit" key
  | .miss key => about "miss" key

def stagingLog (markup : Text) : Text :=
  if Scan.spellsReference markup then
    logLine "inline_vars" "Attached staging container" ++
      logLine "inline_vars" "Detached staging container"
  else []

/-- Prints a result or writes it to the output file. -/
def emit (surroundings : Surroundings) (output : Option Text) (log result : Text) : Outcome :=
  match output with
  | none => { stdout := printed result, stderr := log }
  | some path =>
    match surroundings.place with
    -- The directory of the output is looked at only when there is something to write.
    | .missing => { exitCode := 1, stderr := log, failure := some .missingPlace }
    | .file _ => { exitCode := 1, stderr := log, failure := some .notDirectory }
    | .directory =>
      { stderr := log ++ printed (line ("Wrote ".toList ++ path)), written := some (path, result) }

/-- The dark form of a sheet with the log of making it. -/
def runDark (expandFirst : Bool) (css : Text) : Text × Except ColourError Text :=
  let source := if expandFirst then Variables.expand css else css
  ((if expandFirst then expansionLog css else []) ++ conversionLog .standard source,
    (Converter.standard.convert source).1)

/-- Inline styles resolved without a renderer, with the log of staging them. -/
def runResolve (markup : Text) : Text × Except (Inline.StyleError Empty) Text :=
  let live : Inline.LiveStyle Empty Id := Inline.noLiveStyle
  match (Inline.resolveStyles live Markup.emptyDocument markup).run.1 with
  | .error (.unstaged cause) => ([], .error (.unstaged cause))
  | resolved => (stagingLog markup, resolved)

/-- An empty document is reported; a character that cannot be set ends the program. -/
def resolveFailure (log : Text) : Inline.StyleError Empty → Outcome
  | .unstaged .emptyDocument =>
    let report := "Error: " ++ Markup.StageError.emptyDocument.message
    { exitCode := 1, stderr := log ++ line report.toList }
  | .unstaged .forbiddenCharacter | .forbiddenCharacter =>
    { exitCode := 1, stderr := log, failure := some .forbiddenCharacter }

/-- The report of a lint: the findings and how many there are of each severity. -/
def lintReport (path : Text) (diagnostics : List Lint.Diagnostic) : Text :=
  if diagnostics.isEmpty then
    line ("OK: ".toList ++ fileName path ++ " is clean (0 diagnostics)".toList)
  else
    let number (severity : Lint.Severity) := Decimal.digits (Lint.count severity diagnostics)
    diagnostics.flatMap (fun diagnostic => line diagnostic.text) ++ line [] ++
      line ("Summary: ".toList ++ number .error ++ " error(s), ".toList ++ number .warning ++
        " warning(s), ".toList ++ number .info ++ " info".toList)

def runTask (surroundings : Surroundings) (job : Job) (text : Text) : Outcome :=
  let logged (log : Text) := if job.verbose then log else []
  match job.task with
  | .expand => emit surroundings job.output (logged (expansionLog text)) (Variables.expand text)
  -- A colour that cannot be converted ends the program, with the log printed.
  | .dark expandFirst =>
    match runDark expandFirst text with
    | (log, .ok css) => emit surroundings job.output (logged log) css
    | (log, .error cause) =>
      { exitCode := 1, stderr := logged log, failure := some (.colour cause) }
  | .resolve =>
    match runResolve text with
    | (log, .ok markup) => emit surroundings job.output (logged log) markup
    | (log, .error cause) => resolveFailure (logged log) cause
  | .lint ignored =>
    let diagnostics := Lint.validate text [] ignored
    { exitCode := if diagnostics.any (·.isError) then 1 else 0
      stdout := printed (lintReport job.input diagnostics) }

def usage (cause : UsageError) : Outcome :=
  { exitCode := 2, stderr := line ("Error: ".toList ++ cause.message) }

def runJob (surroundings : Surroundings) (job : Job) : Outcome :=
  match surroundings.input, surroundings.output, job.output with
  | .missing, _, _ => usage (.missingFile job.input)
  | .directory, _, _ => usage (.isDirectory job.input)
  | .file _, .directory, some path => usage (.isDirectory path)
  | .file bytes, _, _ =>
    match decode? bytes with
    -- Bytes that are not UTF-8 are not reported either.
    | none => { exitCode := 1, failure := some .undecodable }
    | some text => runTask surroundings job text

def helpText : Text :=
  line "Usage: pressroom [--verbose] [--version] [--help] COMMAND FILE [OPTIONS]".toList ++
    line "Commands: expand, dark, resolve, lint".toList

def run (surroundings : Job → Surroundings) (arguments : List Text) : Outcome :=
  match readRequest arguments with
  | .error cause => usage cause
  | .ok .version => { stdout := line "pressroom, version 0.1.0".toList }
  | .ok .help => { stdout := helpText }
  | .ok (.job job) => runJob (surroundings job) job

end ThemeCss.Command
