import Offside.Command.State
import Offside.Files.System
import Offside.Settings.Environment
import Offside.Settings.Report
import Offside.Source.File
import Offside.Stream.Configured

/-!
# The stages of a run

A run has three stages: the paths are checked, the input is transformed, and the figures are
reported.  A stage hands a state on, or ends the run.

The output is written beside its target, under the name of the target with `.part` after it, and
moved to the target only when all of the input has been read.  A run that fails removes the file
again.  It breaks off without doing so if a mark cannot be written.

## Main definitions

* `Ending`, `Told` — how a stage ends, and what is told meanwhile.
* `readEnvironment` — the environment of a run.
* `checkPaths` — the first stage.
* `Path.part?` — the path beside a target.
* `transformFile` — the second.
* `reportFigures` — the third.
* `runStages` — one stage after the other.
-/

namespace Offside

/-! ### How a stage ends -/

/-- A failure that a stage does not handle. -/
inductive Crash where
  /-- An operation on files fails. -/
  | file (e : FileError)
  /-- A path has no name to put another in the place of. -/
  | noName (p : Path)
  /-- A value is not what it is used for. -/
  | misuse (m : Misuse)
  /-- A code point cannot be written to a file. -/
  | unencodable (c : CodePoint)

/-- The failure in words. -/
def Crash.message : Crash → String
  | file e => e.message
  | unencodable c => Text.Utf8.unencodable 0 [c]
  | noName p => "PosixPath(" ++ p.quoted ++ ") has an empty name"
  | misuse m => m.message

/-- How a stage ends. -/
inductive Ending where
  /-- The run goes on. -/
  | proceed (s : State)
  /-- The run ends with a code. -/
  | exit (code : Nat)
  /-- The run breaks off. -/
  | crash (c : Crash)

/-- What is told in the course of a stage. -/
structure Told where
  /-- The reports, with their levels. -/
  reports : List Log.Entry := []
  /-- The text for whoever started the run. -/
  errors : String := ""

/-- What is told in one stage and then in another. -/
def Told.append (a b : Told) : Told := ⟨a.reports ++ b.reports, a.errors ++ b.errors⟩

instance : Append Told := ⟨Told.append⟩

/-- A stage. -/
abbrev Stage (m : Type → Type) := State → m (Ending × Told)

/-- A report about the progress of a run. -/
def progress (text : String) : Log.Entry := ⟨1, text⟩

/-- A report about paths and counts. -/
def detail (text : String) : Log.Entry := ⟨2, text⟩

variable {m : Type → Type} [Monad m] [FileSystem m]

/-! ### The environment -/

/-- The file of assignments in the working directory. -/
def assignmentsFile : Path := .ofString ".env"

/-- The environment of a run: the variables of the process, and what the file of assignments
says, if there is one. -/
def readEnvironment (inherited : List (String × List CodePoint)) :
    m (Except Text.Utf8.Fault Environment) := do
  match ← FileSystem.isFile assignmentsFile with
  | .ok true =>
    match ← FileSystem.read assignmentsFile with
    | .ok bytes => return (Text.Utf8.decodeAtOnce bytes).map fun text =>
        { inherited := inherited, statements := Assignments.statements text }
    | .error _ => return .ok { inherited := inherited }
  | _ => return .ok { inherited := inherited }

/-! ### Checking the paths -/

/-- The name of the program in large letters, and what it does. -/
def banner : String :=
  "\n".intercalate
    ["",
      "  _           _            _     _          _            _",
      " (_)_ __   __| | ___ _ __ | |_ _| | ___  __| | ___ _ __ | |_",
      " | | '_ \\ / _` |/ _ \\ '_ \\| __/ _` |/ _ \\/ _` |/ _ \\ '_ \\| __|",
      " | | | | | (_| |  __/ | | | || (_| |  __/ (_| |  __/ | | | |_",
      " |_|_| |_|\\__,_|\\___|_| |_|\\__\\__,_|\\___|\\__,_|\\___|_| |_|\\__|",
      "",
      "  Indentation to indent/dedent marker transform",
      ""]

/-- What is reported before anything is checked. -/
def opening (verbosity : Int) : List Log.Entry :=
  (if 2 ≤ verbosity then [detail banner] else []) ++ [detail "Checking environment..."]

/-- The name of the output file if none is given: that of the input file with `.idd` after it. -/
def outputName (a : Arguments) (inputFile : List CodePoint) : Value :=
  if a.outputFile.truthy then a.outputFile
  else .text ((Path.ofText inputFile).name ++ ".idd".codePoints)

/-- The name that a value gives to a file. -/
def nameOf : Value → Except Misuse (List CodePoint)
  | .text name => .ok name
  | v => .error (.notRelative v)

/-- The path that a value gives, read from a directory. -/
def pathFrom (directory : Path) (v : Value) : Except Misuse Path :=
  (nameOf v).map fun name => directory.join (.ofText name)

/-- The text about an input file that is not there. -/
def notFound (input : Path) : String := s!"Error: Input file not found: {input}\n"

/-- Checks that the input file is there and makes the directory of the output file. -/
def checkPaths : Stage m := fun s => do
  let a := s.arguments
  match a.verbosity.floor? with
  | none => return (.crash (.misuse (.notOrdered a.verbosity)), {})
  | some verbosity =>
    let opening := opening verbosity
    match nameOf a.inputFile with
    | .error e => return (.crash (.misuse e), { reports := opening })
    | .ok inputFile =>
      let input := s.inputDir.join (.ofText inputFile)
      match ← FileSystem.isFile input with
      | .error e => return (.crash (.file e), { reports := opening })
      | .ok false => return (.exit 1, { reports := opening, errors := notFound input })
      | .ok true =>
        let heard := opening ++ [detail s!"Input file: {input}"]
        match pathFrom s.outputDir (outputName a inputFile) with
        | .error e => return (.crash (.misuse e), { reports := heard })
        | .ok output =>
          match ← FileSystem.makeDirectories output.parent true with
          | .error e => return (.crash (.file e), { reports := heard })
          | .ok () =>
            let checked :=
              { s with ready := .bool true, inputPath := .at input, outputPath := .at output }
            return (.proceed checked, { reports := heard ++ [detail s!"Output file: {output}"] })

/-! ### Transforming the input -/

/-- A value is asked for what only a path has. -/
def noMember (v : Value) (name : String) : Misuse := .noPart (.noMember (.value v) name)

/-- Why the transformation of a file fails. -/
inductive FileTransformError where
  /-- Reading the stream fails. -/
  | read (e : ReadError)
  /-- An operation on files fails. -/
  | file (e : FileError)
  /-- A code point cannot be written. -/
  | unencodable (c : CodePoint)
  deriving DecidableEq, Repr

/-- What becomes of a failed transformation: whoever started the run is told, or the run breaks
off.  A path that no file can have and a code point that cannot be written are not handled. -/
def FileTransformError.verdict : FileTransformError → Except Crash String
  | read (.mismatch mismatch) => .ok ("Indentation error: " ++ mismatch.message ++ "\n")
  | read e => .ok ("Error reading input file: " ++ e.message ++ "\n")
  | file e =>
    if e.failure = .badPath then .error (.file e)
    else .ok ("Error reading input file: " ++ e.message ++ "\n")
  | unencodable c => .error (.unencodable c)

/-- The source of an open file with some contents. -/
def fileSource (bytes : List UInt8) : FileSource :=
  let decoded := Text.Utf8.decode bytes
  { rest := decoded.text.map .char, fault := decoded.fault.map ReadError.undecodable }

/-- Copies the units of a stream to the end of a file, one by one, up to the end of the input or to
the first failure: how many there are, the stream after them, and its notices. -/
def copyUnits (p : Path) (stream : Stream FileSource) :
    m (Except FileTransformError Nat × Stream FileSource × List Notice) :=
  match _h : stream.next with
  | ⟨.error e, next, notices⟩ => return (.error (.read e), next, notices)
  | ⟨.ok none, next, notices⟩ => return (.ok 0, next, notices)
  | ⟨.ok (some t), next, notices⟩ => do
    match Text.Utf8.encodeUnit? t.char with
    | none => return (.error (.unencodable t.char), next, notices)
    | some bytes =>
      match ← FileSystem.append p bytes with
      | .error e => return (.error (.file e), next, notices)
      | .ok () =>
        let (copied, last, more) ← copyUnits p next
        return (copied.map (· + 1), last, notices ++ more)
termination_by stream.remaining
decreasing_by
  have hlt := stream.remaining_next_lt t (by rw [_h])
  rw [_h] at hlt
  exact hlt

/-- Transforms a file into another one, and moves that to its target.  The reports are those of
the stream. -/
def transformInto (settings : Settings) (input partPath target : Path) :
    m (Except FileTransformError Report × List Log.Entry) := do
  match ← FileSystem.read input with
  | .error e => return (.error (.file e), [])
  | .ok _ =>
    match ← FileSystem.create partPath with
    | .error e => return (.error (.file e), [])
    | .ok () =>
      -- the input may be the very file that has just been emptied
      match ← FileSystem.read input with
      | .error e => return (.error (.file e), [])
      | .ok bytes =>
        let stream := Stream.ofSettings (fileSource bytes) settings (some input.toString)
        let (copied, stream, notices) ← copyUnits partPath stream
        let closed := stream.close
        let heard := (notices ++ closed.notices).map Notice.entry
        match closed.outcome, copied with
        | .error e, _ => return (.error (.read e), heard)
        | .ok (), .error e => return (.error e, heard)
        | .ok (), .ok units =>
          match ← FileSystem.rename partPath target with
          | .error e => return (.error (.file e), heard)
          | .ok () =>
            let engine := stream.engine
            let report : Report :=
              { outputFile := target.text, units := units
                indents := engine.indents, dedents := engine.dedents }
            return (.ok report, heard)

/-- What stands behind the name of a target in the name of the file beside it. -/
def partSuffix : List CodePoint := ".part".codePoints

/-- The path beside a target that the output is written to. -/
def Path.part? (p : Path) : Option Path := p.withName? (p.name ++ partSuffix)

/-- Removes a file that may not be there. -/
def removeIfPresent (p : Path) : m (Except FileError Unit) := do
  match ← FileSystem.remove p with
  | .ok () => return .ok ()
  | .error e => if e.failure = .missing then return .ok () else return .error e

/-- Transforms a file that there is a path for under accepted settings. -/
def transformAt (settings : Settings) (s : State) (input target : Path) :
    m (Ending × Told) := do
  match target.part? with
  | none => return (.crash (.noName target), {})
  | some partPath =>
    match ← transformInto settings input partPath target with
    | (.ok report, heard) =>
      let told := heard ++ [detail s!"Wrote {report.units} characters"]
      return (.proceed { s with report := report.value }, { reports := told })
    | (.error failure, heard) =>
      match failure.verdict with
      | .error crash => return (.crash crash, { reports := heard })
      | .ok errors =>
        match ← removeIfPresent partPath with
        | .error e => return (.crash (.file e), { reports := heard })
        | .ok () => return (.exit 1, { reports := heard, errors := errors })

/-- The settings of a run, given those that were configured at its start; or how the stage ends
without any.  The environment is read again, for what it sets beside the fields. -/
def settle (inherited : List (String × List CodePoint)) (configured : Settings) (s : State) :
    m (Except Ending Settings × Told) := do
  let invalid (warning text : String) : m (Except Ending Settings × Told) :=
    return (.error (.exit 1), { errors := warning ++ "Invalid option: " ++ text ++ "\n" })
  match s.override configured with
  | .error e => return (.error (.crash (.misuse e)), {})
  | .ok override =>
    match ← readEnvironment inherited with
    | .error fault => invalid "" fault.message
    | .ok environment =>
      match configured.resolve override environment.given with
      | .error errors => invalid environment.warning (Settings.report errors)
      | .ok settings => return (.ok settings, { errors := environment.warning })

/-- Transforms the input file under the settings of the run, given those that were configured at
its start.  Whoever listens has a verbosity, which the first report is held against. -/
def transformFile (inherited : List (String × List CodePoint)) (configured : Settings)
    (listener : Value) : Stage m := fun s => do
  match ← settle inherited configured s with
  | (.error ending, told) => return (ending, told)
  | (.ok settings, told) =>
    match s.inputPath with
    | .other v => return (.crash (.misuse (noMember v "name")), told)
    | .at input =>
      if listener.floor? = none then return (.crash (.misuse (.notOrdered listener)), told)
      else
        let name := Text.printed input.name
        let told := told ++ { reports := [progress ("Transforming " ++ name ++ "...")] }
        match s.outputPath with
        | .other v => return (.crash (.misuse (noMember v "with_name")), told)
        | .at target =>
          let (ending, more) ← transformAt settings s input target
          return (ending, told ++ more)

/-! ### Reporting the figures -/

/-- A figure of a report. -/
def figure (report : Value) (name : String) : Except Crash String :=
  match report.entry (.name name) with
  | .ok v => .ok v.plain
  | .error e => .error (.misuse (.noPart e))

/-- The figures that are told, each with the words before it. -/
def figureNames : List (String × String) :=
  [("  Output:  ", "output_file"), ("  Indents: ", "indents"), ("  Dedents: ", "dedents")]

/-- Tells figures of a report, up to the first that is missing. -/
def tellFigures (report : Value) : List (String × String) → List Log.Entry × Option Crash
  | [] => ([], none)
  | (words, name) :: rest => match figure report name with
    | .error crash => ([], some crash)
    | .ok text =>
      let (told, crash) := tellFigures report rest
      (progress (words ++ text) :: told, crash)

/-- Tells the figures of the transformation. -/
def reportFigures : Stage m := fun s => do
  if !s.report.truthy then return (.exit 1, { errors := "Error: Transform failed\n" })
  else match s.arguments.verbosity.floor? with
    | none => return (.crash (.misuse (.notOrdered s.arguments.verbosity)), {})
    | some verbosity =>
      if verbosity < 1 then return (.proceed s, {})
      else
        let (figures, crash) := tellFigures s.report figureNames
        let heard := progress "\n✓ Transform successful!" ::
          progress ("  Input:   " ++ s.inputPath.plain) :: figures
        match crash with
        | some crash => return (.crash crash, { reports := heard })
        | none => return (.proceed s, { reports := heard })

/-! ### Stages in a row -/

/-- Runs stages as long as each hands a state on: how the last of them ended, and all that was
told. -/
def runStages (s : State) : List (Stage m) → m (Ending × Told)
  | [] => return (.proceed s, {})
  | stage :: rest => do
    match ← stage s with
    | (.proceed s, told) =>
      let (ending, more) ← runStages s rest
      return (ending, told ++ more)
    | (ending, told) => return (ending, told)

end Offside
