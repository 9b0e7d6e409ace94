import Offside.Text.Quoted

/-!
# Paths

A path is a list of names, read from the root or from the working directory.  Empty names and
single dots say nothing and are dropped; two dots are kept, because what they mean depends on
the directory before them.  A path from the root starts with a slash.  Of several only one
counts, but exactly two stand for a root of their own.

The names of a path are texts, and those of files are bytes.  A surrogate in a path may stand for a
byte that is part of no character, and so two paths that are written differently may lead to one
file.  The other surrogates stand for no byte.  They make a name that no file can have, as the null
character does.

## Main definitions

* `FileName` — the name of a file.
* `CodePoint.fileBytes`, `FileName.ofText` — what a text is as a name.
* `Path.ofText`, `Path.text` — reading and writing a path.
* `Path.bytes` — a path as the system gets it.
* `Path.join` — a path read from another one.
* `Path.name`, `Path.parent`, `Path.withName?` — the last name of a path and what is before it.
-/

namespace Offside

/-! ### Names -/

/-- The byte that a surrogate stands for. -/
def CodePoint.byte? : CodePoint → Option UInt8
  | char _ => none
  | surrogate n => if 0x480 ≤ n.val ∧ n.val < 0x500 then some (.ofNat (n.val - 0x400)) else none

/-- The bytes of a code point in a name.  A surrogate that stands for none gives the null byte,
which is part of no name. -/
def CodePoint.fileBytes : CodePoint → List UInt8
  | char c => String.utf8EncodeChar c
  | c => [c.byte?.getD 0]

/-- The name of a file or a directory, as the system has it. -/
abbrev FileName := List UInt8

namespace FileName

/-- The name that a text gives. -/
def ofText (text : List CodePoint) : FileName := text.flatMap CodePoint.fileBytes

/-- The name that a string gives. -/
def ofString (s : String) : FileName := ofText s.codePoints

/-- The name of the directory before. -/
def dots : FileName := ofString ".."

@[simp] theorem ofText_nil : ofText [] = [] := rfl

@[simp] theorem ofText_append (text more : List CodePoint) :
    ofText (text ++ more) = ofText text ++ ofText more := List.flatMap_append

/-- The first surrogates of a text that stand for no byte, with the surrogates right behind them,
and how much of the text is before them. -/
def unusable? (text : List CodePoint) : Option (Nat × List CodePoint) :=
  let usable (c : CodePoint) : Bool := c.char?.isSome || c.byte?.isSome
  let before := text.takeWhile usable
  match text.drop before.length with
  | [] => none
  | c :: rest => some (before.length, c :: rest.takeWhile fun d => d.char?.isNone)

end FileName

/-! ### Paths -/

/-- A path to a file or a directory. -/
structure Path where
  /-- How many slashes it starts with; none if it is read from the working directory. -/
  slashes : Nat := 0
  /-- The names on the way. -/
  parts : List (List CodePoint) := []
  deriving DecidableEq, Repr

namespace Path

/-- The root. -/
def root : Path := { slashes := 1 }

/-- Whether a path is read from a root. -/
def isAbsolute (p : Path) : Bool := p.slashes ≠ 0

/-- The names between the slashes of a text. -/
def names (text : List CodePoint) : List (List CodePoint) :=
  (text.splitOn (.char '/')).filter fun name => name ≠ [] ∧ name ≠ [.char '.']

/-- Reads a path. -/
def ofText (text : List CodePoint) : Path where
  slashes :=
    let count := (text.takeWhile (· = .char '/')).length
    if count = 2 then 2 else min count 1
  parts := names text

/-- Reads a path from a string. -/
def ofString (s : String) : Path := ofText s.codePoints

/-- Writes a path; the working directory is a single dot. -/
def text (p : Path) : List CodePoint :=
  let names := List.intercalate [.char '/'] p.parts
  if p.isAbsolute then List.replicate p.slashes (.char '/') ++ names
  else if p.parts = [] then ".".codePoints else names

/-- A path in running text. -/
def toString (p : Path) : String := Text.printed p.text

instance : ToString Path := ⟨toString⟩

/-- A path as the system gets it. -/
def bytes (p : Path) : List UInt8 := FileName.ofText p.text

/-- The path `q` read from `p`; an absolute path stays as it is. -/
def join (p q : Path) : Path :=
  if q.isAbsolute then q else { p with parts := p.parts ++ q.parts }

/-- The last name, empty if there is none. -/
def name (p : Path) : List CodePoint := p.parts.getLastD []

/-- The path without its last name. -/
def parent (p : Path) : Path := { p with parts := p.parts.dropLast }

/-- The path with another last name, if it has one to replace. -/
def withName? (p : Path) (name : List CodePoint) : Option Path :=
  if p.parts = [] then none else some { p with parts := p.parts.dropLast ++ [name] }

/-- Two paths to one file. -/
example :
    (ofText ("a/".codePoints ++ [.surrogate 0x4C3, .surrogate 0x4A9])).bytes =
      (ofString "a/é").bytes := by
  decide +kernel

end Path

end Offside
