import Offside.Command.Program

/-!
# The command line

The program on the files of the system.  Everything is decided by `runProgram`; here the
operations on files are carried out, and the outcome is printed.
-/

namespace Offside

namespace Disk

/-- The code that the system gives to an error. -/
def errorCode? : IO.Error → Option UInt32
  | .noFileOrDirectory _ code _ => some code
  | .alreadyExists _ code _ => some code
  | .inappropriateType _ code _ => some code
  | .resourceBusy code _ => some code
  | .resourceExhausted _ code _ => some code
  | .invalidArgument _ code _ => some code
  | .otherError code _ => some code
  | _ => none

/-- The number of an error.  Some operations give it as the negative of its code. -/
def errorNumber (code : UInt32) : Nat := min code.toNat (-code).toNat

/-- The failure of a number. -/
def failure? (number : Nat) : Option FileFailure :=
  [.missing, .present, .notDirectory, .directory, .busy, .full, .longName].find?
    fun f => f.number? = some number

/-- Carries out an operation about some paths.  An error that is no failure of a path ends the
program. -/
def attempt {α : Type} (p : Path) (target : Option Path) (operation : IO α) :
    IO (Except FileError α) := do
  if 0 ∈ p.bytes ++ (target.map Path.bytes).getD [] then
    return .error ⟨.badPath, p, target⟩
  try
    return .ok (← operation)
  catch e =>
    match (errorCode? e).bind fun code => failure? (errorNumber code) with
    | some failure => return .error ⟨failure, p, target⟩
    | none => throw e

/-- The path as a string.  A path with anything but characters in it cannot be handed on from here,
and ends the program. -/
def spelled (p : Path) : IO String :=
  match CodePoint.string? p.text with
  | some path => return path
  | none => throw (IO.userError s!"no way to spell {p.quoted}")

/-- What a path leads to. -/
def kind (path : String) : IO FileKind := do
  let found ← (← IO.FS.realPath path).metadata
  return match found.type with
    | .dir => .directory
    | _ => .file

instance : FileSystem IO where
  kind p := attempt p none do kind (← spelled p)
  read p := attempt p none do return (← IO.FS.readBinFile (← spelled p)).toList
  create p := attempt p none do IO.FS.writeBinFile (← spelled p) ⟨#[]⟩
  append p bytes := attempt p none do
    (← IO.FS.Handle.mk (← spelled p) .append).write ⟨bytes.toArray⟩
  makeDirectory p := attempt p none do IO.FS.createDir (← spelled p)
  rename source target :=
    attempt source (some target) do IO.FS.rename (← spelled source) (← spelled target)
  remove p := attempt p none do IO.FS.removeFile (← spelled p)

end Disk

/-- A variable from the form in which the system lists it. -/
def readVariable (text : String) : Option (String × List CodePoint) :=
  let cs := text.toList
  match cs.dropWhile (· ≠ '=') with
  | [] => none
  | _ :: value => some (String.ofList (cs.takeWhile (· ≠ '=')), value.map .char)

/-- The variables of the process, those that are characters throughout. -/
def readVariables : IO (List (String × List CodePoint)) := do
  try
    let bytes ← IO.FS.readBinFile "/proc/self/environ"
    let texts := (bytes.toList.splitOn 0).filterMap fun bs => String.fromUTF8? ⟨bs.toArray⟩
    return texts.filterMap readVariable
  catch _ => return []

/-- Prints an outcome and returns its exit code. -/
def print (outcome : Outcome) : IO UInt32 := do
  IO.print outcome.output
  for report in outcome.heard do
    IO.eprintln (report.severity.name ++ " " ++ report.text)
  IO.eprint outcome.errors
  match outcome.result with
  | .ok code => return code.toUInt32
  | .error crash =>
    IO.eprintln crash.message
    return 1

end Offside

/-- Runs the program on the command line. -/
def main (arguments : List String) : IO UInt32 := do
  let inherited ← Offside.readVariables
  match ← Offside.readSettings inherited with
  | .error (.undecodable fault) =>
    IO.eprintln fault.message
    return 1
  | .error (.refused errors) =>
    IO.eprintln (Offside.Settings.report errors)
    return 1
  | .ok configured => Offside.print (← Offside.runProgram inherited configured arguments)
