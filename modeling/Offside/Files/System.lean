import Offside.Files.Path
import Offside.Text.Utf8

/-!
# File systems

What a run needs of a file system, as a class over the monad in which the files change.  Every
operation either does what it says or reports an error and changes nothing.

## Main definitions

* `FileError` — an error, with the paths it is about.
* `FileSystem` — the operations.
* `kind?`, `isFile`, `isDirectory` — questions that an unusable path answers with no.
* `makeDirectories` — a directory together with those it lies in.
-/

namespace Offside

/-! ### Errors -/

/-- What goes wrong with a path. -/
inductive FileFailure where
  /-- There is nothing there. -/
  | missing
  /-- There is something there already. -/
  | present
  /-- A name on the way is not that of a directory. -/
  | notDirectory
  /-- It is a directory. -/
  | directory
  /-- It is in use. -/
  | busy
  /-- A name or the whole path is too long. -/
  | longName
  /-- There is no room left. -/
  | full
  /-- The path has something in it that no path can have. -/
  | badPath
  /-- There are too many directories to make at once. -/
  | tooDeep
  deriving DecidableEq, Repr

/-- The number of a failure that is the system's; some do not get that far. -/
def FileFailure.number? : FileFailure → Option Nat
  | missing => some 2
  | busy => some 16
  | present => some 17
  | notDirectory => some 20
  | directory => some 21
  | full => some 28
  | longName => some 36
  | badPath => none
  | tooDeep => none

/-- A failure in words. -/
def FileFailure.text : FileFailure → String
  | missing => "No such file or directory"
  | busy => "Device or resource busy"
  | present => "File exists"
  | notDirectory => "Not a directory"
  | directory => "Is a directory"
  | full => "No space left on device"
  | longName => "File name too long"
  | badPath => "embedded null byte"
  | tooDeep => "maximum recursion depth exceeded while calling a Python object"

/-- A failed operation. -/
structure FileError where
  /-- What went wrong. -/
  failure : FileFailure
  /-- The path of the operation. -/
  path : Path
  /-- The second path, if the operation has one. -/
  target : Option Path := none
  deriving DecidableEq, Repr

/-- A path as messages show it. -/
def Path.quoted (p : Path) : String := Text.quoted p.text

/-- Why a path is none for the system, if it is because of the surrogates in it. -/
def Path.unusable? (p : Path) : Option String :=
  (FileName.unusable? p.text).map fun found => Text.Utf8.unencodable found.1 found.2

/-- The paths of an operation as messages show them.  Where there is no room left, the file is open
already and goes without its path. -/
def FileError.place (e : FileError) : String :=
  if e.failure = .full then ""
  else match e.target with
    | none => ": " ++ e.path.quoted
    | some target => ": " ++ e.path.quoted ++ " -> " ++ target.quoted

/-- The failure in words. -/
def FileError.message (e : FileError) : String :=
  match e.failure.number? with
  | none => (if e.failure = .badPath then e.path.unusable? else none).getD e.failure.text
  | some number => s!"[Errno {number}] {e.failure.text}" ++ e.place

/-! ### The operations -/

/-- What a path leads to. -/
inductive FileKind where
  | file
  | directory
  deriving DecidableEq, Repr

/-- A file system that is changed in the monad `m`. -/
class FileSystem (m : Type → Type) where
  /-- What a path leads to. -/
  kind : Path → m (Except FileError FileKind)
  /-- The contents of a file. -/
  read : Path → m (Except FileError (List UInt8))
  /-- Opens a file, new or old, to write it from its start: it is empty then. -/
  create : Path → m (Except FileError Unit)
  /-- Writes bytes to the end of a file that was opened to be written. -/
  append : Path → List UInt8 → m (Except FileError Unit)
  /-- Makes one directory. -/
  makeDirectory : Path → m (Except FileError Unit)
  /-- Moves a file to a path, in the place of the file that is there. -/
  rename : Path → Path → m (Except FileError Unit)
  /-- Removes a file. -/
  remove : Path → m (Except FileError Unit)

namespace FileSystem

variable {m : Type → Type} [Monad m] [FileSystem m]

/-- What a path leads to, if it leads anywhere.  That it leads nowhere is no error. -/
def kind? (p : Path) : m (Except FileError (Option FileKind)) := do
  match ← kind p with
  | .ok found => return .ok (some found)
  | .error e =>
    if e.failure ∈ [.missing, .notDirectory, .badPath] then return .ok none else return .error e

/-- Whether a path leads to a file. -/
def isFile (p : Path) : m (Except FileError Bool) := do
  return (← kind? p).map (· = some .file)

/-- Whether a path leads to a directory. -/
def isDirectory (p : Path) : m (Except FileError Bool) := do
  return (← kind? p).map (· = some .directory)

/-- Makes a directory, or fails with an error unless it is there already and may be. -/
def makeOne (p : Path) (mayExist : Bool) : m (Except FileError Unit) := do
  match ← makeDirectory p with
  | .ok () => return .ok ()
  | .error e =>
    if e.failure = .missing ∨ e.failure = .badPath ∨ !mayExist then return .error e
    else match ← isDirectory p with
      | .error e => return .error e
      | .ok true => return .ok ()
      | .ok false => return .error e

/-- Makes the directory whose names are given from the last to the first, and before it those
on the way that are missing, but not more than there is room for. -/
def makeAll (slashes : Nat) (mayExist : Bool) :
    Nat → List (List CodePoint) → m (Except FileError Unit)
  | _, [] => makeOne ⟨slashes, []⟩ mayExist
  | room, name :: before => do
    let p : Path := ⟨slashes, (name :: before).reverse⟩
    match room with
    | 0 => return .error ⟨.tooDeep, p, none⟩
    | room + 1 =>
      match ← makeOne p mayExist with
      | .ok () => return .ok ()
      | .error e =>
        if e.failure = .missing then
          match ← makeAll slashes true room before with
          | .error e => return .error e
          | .ok () => makeOne p mayExist
        else return .error e

/-- How many directories in one another can be made at once. -/
def deepest : Nat := 985

/-- Makes a directory and those it lies in, where they are missing.  Whether the directory itself
may be there is up to the caller. -/
def makeDirectories (p : Path) (mayExist : Bool) : m (Except FileError Unit) :=
  makeAll p.slashes mayExist deepest p.parts.reverse

end FileSystem

end Offside
