import Offside.Command.Stages

/-!
# The program

A run from the command line: the arguments are read, the directories are checked, and the stages
run one after the other.  What is reported is heard as far as the verbosity of the arguments
goes.

## Main definitions

* `Outcome` — what whoever started the program sees.
* `readSettings` — the settings that are configured at the start.
* `runProgram` — the run.
-/

namespace Offside

/-- What whoever started the program sees of a run. -/
structure Outcome where
  /-- The exit code, or the failure that the program broke off with. -/
  result : Except Crash Nat
  /-- The regular output. -/
  output : String := ""
  /-- The text for errors. -/
  errors : String := ""
  /-- The reports that are heard. -/
  heard : List Log.Entry := []

/-- The name of the program. -/
def programName : String := "indentdedent"

/-- The version of the program. -/
def programVersion : String := "1.0.0"

variable {m : Type → Type} [Monad m] [FileSystem m]

/-! ### Settings at the start -/

/-- Why a program does not start. -/
inductive StartError where
  /-- The file of assignments is no text. -/
  | undecodable (fault : Text.Utf8.Fault)
  /-- What the environment sets cannot be accepted. -/
  | refused (errors : List FieldError)

/-- The settings that follow from the variables of the process and the file of assignments in
the working directory. -/
def readSettings (inherited : List (String × List CodePoint)) : m (Except StartError Settings) := do
  match ← readEnvironment inherited with
  | .error fault => return .error (.undecodable fault)
  | .ok environment => return environment.settings.mapError .refused

/-! ### The run -/

/-- The exit of a program that was asked for a directory and found something else. -/
def notADirectory (p : Path) : Outcome :=
  { result := .ok 1, errors := s!"Not a directory: {p}\n" }

/-- Makes the directory of the output, unless something is there, and checks that both
directories are there: the outcome if they are not. -/
def checkDirectories (inputDir outputDir : Path) : m (Option Outcome) := do
  let broken (e : FileError) : Option Outcome := some { result := .error (.file e) }
  let made ← match ← FileSystem.kind? outputDir with
    | .error e => pure (.error e)
    | .ok (some _) => pure (.ok ())
    | .ok none => FileSystem.makeDirectories outputDir false
  match made with
  | .error e => return broken e
  | .ok () =>
    match ← FileSystem.isDirectory outputDir with
    | .error e => return broken e
    | .ok false => return some (notADirectory outputDir)
    | .ok true =>
      match ← FileSystem.isDirectory inputDir with
      | .error e => return broken e
      | .ok false => return some (notADirectory inputDir)
      | .ok true => return none

/-- The three stages of a run. -/
def stages (inherited : List (String × List CodePoint)) (configured : Settings) (listener : Value) :
    List (Stage m) :=
  [checkPaths, transformFile inherited configured listener, reportFigures]

/-- Runs the stages on what the arguments give. -/
def runArguments (inherited : List (String × List CodePoint)) (configured : Settings)
    (a : Arguments) (inputDir outputDir : Path) : m Outcome := do
  match ← checkDirectories inputDir outputDir with
  | some outcome => return outcome
  | none =>
    let s : State := { arguments := a, inputDir := inputDir, outputDir := outputDir }
    let (ending, told) ← runStages s (stages inherited configured a.verbosity)
    let heard := Log.heard (a.verbosity.floor?.getD 0) told.reports
    let result := match ending with
      | .proceed _ => .ok 0
      | .exit code => .ok code
      | .crash crash => .error crash
    return { result := result, errors := told.errors, heard := heard }

/-- The path that a value gives. -/
def pathOf : Value → Except Misuse Path
  | .text name => .ok (.ofText name)
  | v => .error (.notPath v)

/-- Runs the program on a command line, under settings that were configured at the start. -/
def runProgram (inherited : List (String × List CodePoint)) (configured : Settings)
    (arguments : List String) : m Outcome := do
  match Arguments.parse arguments with
  | .error e =>
    return { result := .ok 2, errors := programName ++ ": error: " ++ e.message }
  | .ok .version => return { result := .ok 0, output := s!"{programName} {programVersion}\n" }
  | .ok .help =>
    return { result := .ok 0, output := "usage: " ++ programName ++
      " [options] --inputFile INPUTFILE inputdir outputdir\n" }
  | .ok (.run a inputDir outputDir) =>
    match pathOf inputDir, pathOf outputDir with
    | .ok inputDir, .ok outputDir => runArguments inherited configured a inputDir outputDir
    | .error e, _ => return { result := .error (.misuse e) }
    | _, .error e => return { result := .error (.misuse e) }

end Offside
