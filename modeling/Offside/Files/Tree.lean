import Offside.Files.System

/-!
# File trees

A file system as a value: a directory holds files and directories under their names.  It is the
file system of a run that changes nothing outside.

A path is followed name by name, from the root or from the working directory, and every name but
the last must be that of a directory.  Two dots lead back to the directory before; at the root
they lead nowhere else.  There are no links, so the names alone say where a path leads.

## Main definitions

* `Node` — a file or a directory.
* `Node.at?`, `Node.put`, `Node.erase` — the node at a place.
* `Path.placeOf`, `Tree.place` — the place that a path leads to.
* `Tree.follow` — what is found on the way there.
* the instance of `FileSystem` for `StateM Tree`.
-/

namespace Offside

/-! ### Nodes -/

/-- A file or a directory. -/
inductive Node where
  /-- A file with its contents. -/
  | file (bytes : List UInt8)
  /-- A directory with what it holds. -/
  | directory (entries : List (FileName × Node))
  deriving Inhabited

namespace Node

/-- A directory that holds nothing. -/
def empty : Node := directory []

/-- The kind of a node. -/
def kind : Node → FileKind
  | file _ => .file
  | directory _ => .directory

/-- What a directory holds; a file holds nothing. -/
def entries : Node → List (FileName × Node)
  | file _ => []
  | directory entries => entries

@[simp] theorem entries_directory (es : List (FileName × Node)) : (directory es).entries = es := rfl

/-- Entries with another node under a name. -/
def setEntry (name : FileName) (node : Node) : List (FileName × Node) → List (FileName × Node)
  | [] => [(name, node)]
  | entry :: rest =>
    if entry.1 = name then (name, node) :: rest else entry :: setEntry name node rest

/-- The node at a place, which is a list of names. -/
def at? (n : Node) : List FileName → Option Node
  | [] => some n
  | name :: rest => (n.entries.lookup name).bind fun next => next.at? rest

/-- Puts a node at a place, with directories on the way where there are none. -/
def put (n : Node) (node : Node) : List FileName → Node
  | [] => node
  | name :: rest =>
    directory (setEntry name (((n.entries.lookup name).getD empty).put node rest) n.entries)

/-- Takes away what is at a place. -/
def erase (n : Node) : List FileName → Node
  | [] => n
  | [name] => directory (n.entries.filter fun entry => entry.1 ≠ name)
  | name :: rest => match n.entries.lookup name with
    | none => n
    | some next => directory (setEntry name (next.erase rest) n.entries)

@[simp] theorem at?_nil (n : Node) : n.at? [] = some n := rfl

@[simp] theorem lookup_setEntry (name : FileName) (node : Node) (entries : List (FileName × Node)) :
    (setEntry name node entries).lookup name = some node := by
  induction entries with
  | nil => simp [setEntry]
  | cons entry rest ih =>
    rw [setEntry]
    split
    · simp
    · rename_i h
      rw [List.lookup_cons, beq_false_of_ne (Ne.symm h), ih]

theorem lookup_setEntry_of_ne {name other : FileName} (h : other ≠ name) (node : Node)
    (entries : List (FileName × Node)) :
    (setEntry name node entries).lookup other = entries.lookup other := by
  induction entries with
  | nil => simp [setEntry, h]
  | cons entry rest ih =>
    rw [setEntry]
    split
    · rename_i he
      rw [List.lookup_cons, List.lookup_cons, he, beq_false_of_ne h]
    · rw [List.lookup_cons, List.lookup_cons, ih]

mutual

/-- All that lies at or below a node, with the names on the way. -/
def all (place : List FileName) : Node → List (List FileName × Node)
  | file bytes => [(place, file bytes)]
  | directory entries => (place, directory entries) :: allIn place entries

/-- All that lies at or below entries of a directory. -/
def allIn (place : List FileName) : List (FileName × Node) → List (List FileName × Node)
  | [] => []
  | (name, node) :: rest => node.all (place ++ [name]) ++ allIn place rest

end

/-- How many bytes the files at or below a node have. -/
def size (n : Node) : Nat :=
  (n.all []).foldl (fun total found => match found.2 with
    | file bytes => total + bytes.length
    | directory _ => total) 0

end Node

/-! ### Places -/

namespace Path

/-- Names on the way from the root, the last one first, led on by another.  Two dots take back the
name before them. -/
def leadOn (names : List FileName) (name : FileName) : List FileName :=
  if name = FileName.dots then names.tail else name :: names

/-- The place that names lead to from the root. -/
def placeOf (names : List FileName) : List FileName := (names.foldl leadOn []).reverse

end Path

/-- The files and directories of a system. -/
structure Tree where
  /-- The root. -/
  root : Node := .empty
  /-- The names that lead from the root to the working directory. -/
  here : List FileName := []
  /-- How many bytes there is room for, if there is a limit. -/
  capacity : Option Nat := none

namespace Tree

/-- The names that lead from the root to where a path does. -/
def names (t : Tree) (p : Path) : List FileName :=
  let names := p.parts.map FileName.ofText
  if p.isAbsolute then names else t.here ++ names

/-- The place that a path leads to. -/
def place (t : Tree) (p : Path) : List FileName := Path.placeOf (t.names p)

/-- What lies in the working directory, with the names that lead to it. -/
def inside (t : Tree) : List (List FileName × Node) :=
  Node.allIn [] ((t.root.at? (Path.placeOf t.here)).getD .empty).entries

/-- Puts a node where a path leads to, with directories on the way.  A directory that is there
stays. -/
def plant (t : Tree) (p : Path) (node : Node) : Tree :=
  match node, t.root.at? (t.place p) with
  | .directory _, some (.directory _) => t
  | _, _ => { t with root := t.root.put node (t.place p) }

/-! ### Following paths -/

/-- The longest name in bytes. -/
def longestName : Nat := 255

/-- The longest path in bytes. -/
def longestPath : Nat := 4095

/-- Goes through names, from those that have been gone through already, the last one first.  What
is at the last of them is not looked at. -/
def walk (t : Tree) (gone : List FileName) : List FileName → Except FileFailure Unit
  | [] => .ok ()
  | name :: rest =>
    match t.root.at? gone.reverse with
    | none => .error .missing
    | some (.file _) => .error .notDirectory
    | some (.directory _) =>
      if longestName < name.length then .error .longName
      else t.walk (Path.leadOn gone name) rest

/-- The place that a path leads to, and what is there. -/
def follow (t : Tree) (p : Path) : Except FileFailure (List FileName × Option Node) :=
  if 0 ∈ p.bytes then .error .badPath
  else if longestPath < p.bytes.length then .error .longName
  else (t.walk [] (t.names p)).map fun () => (t.place p, t.root.at? (t.place p))

/-- What a path leads to. -/
def find (t : Tree) (p : Path) : Except FileFailure (List FileName × Node) :=
  match t.follow p with
  | .error e => .error e
  | .ok (_, none) => .error .missing
  | .ok (place, some node) => .ok (place, node)

/-- Whether the last name of a path is one that can be given to a file. -/
def endsInName (p : Path) : Bool := p.parts ≠ [] && FileName.ofText p.name ≠ FileName.dots

/-! ### The operations -/

/-- The contents of a file. -/
def read (t : Tree) (p : Path) : Except FileFailure (List UInt8) :=
  match t.find p with
  | .error e => .error e
  | .ok (_, .directory _) => .error .directory
  | .ok (_, .file bytes) => .ok bytes

/-- The tree with an empty file. -/
def create (t : Tree) (p : Path) : Except FileFailure Tree :=
  match t.follow p with
  | .error e => .error e
  | .ok (_, some (.directory _)) => .error .directory
  | .ok (place, _) => .ok { t with root := t.root.put (.file []) place }

/-- Whether there is room for more bytes. -/
def hasRoom (t : Tree) (count : Nat) : Bool :=
  t.capacity.all fun capacity => t.root.size + count ≤ capacity

/-- The tree with more bytes at the end of a file. -/
def append (t : Tree) (p : Path) (bytes : List UInt8) : Except FileFailure Tree :=
  match t.find p with
  | .error e => .error e
  | .ok (_, .directory _) => .error .directory
  | .ok (place, .file before) =>
    if t.hasRoom bytes.length then
      .ok { t with root := t.root.put (.file (before ++ bytes)) place }
    else .error .full

/-- The tree with one more directory. -/
def makeDirectory (t : Tree) (p : Path) : Except FileFailure Tree :=
  match t.follow p with
  | .error e => .error e
  | .ok (_, some _) => .error .present
  | .ok (place, none) => .ok { t with root := t.root.put .empty place }

/-- The tree with a file moved. -/
def rename (t : Tree) (source target : Path) : Except FileFailure Tree :=
  match t.follow source, t.follow target with
  | .error e, _ => .error e
  | _, .error e => .error e
  | .ok (fromPlace, fromNode), .ok (toPlace, toNode) =>
    if endsInName source = false ∨ endsInName target = false then .error .busy
    else match fromNode, toNode with
      | none, _ => .error .missing
      | some (.file _), some (.directory _) => .error .directory
      | some (.directory _), some (.file _) => .error .notDirectory
      | some node, _ => .ok { t with root := (t.root.erase fromPlace).put node toPlace }

/-- The tree without a file. -/
def remove (t : Tree) (p : Path) : Except FileFailure Tree :=
  match t.find p with
  | .error e => .error e
  | .ok (_, .directory _) => .error .directory
  | .ok (place, .file _) => .ok { t with root := t.root.erase place }

/-- The outcome of an operation about some paths, in a state. -/
def change (p : Path) (target : Option Path) (f : Tree → Except FileFailure Tree) :
    StateM Tree (Except FileError Unit) := fun t =>
  match f t with
  | .ok t' => (.ok (), t')
  | .error e => (.error ⟨e, p, target⟩, t)

instance : FileSystem (StateM Tree) where
  kind p := fun t => (((t.find p).map fun found => found.2.kind).mapError (⟨·, p, none⟩), t)
  read p := fun t => ((t.read p).mapError (⟨·, p, none⟩), t)
  create p := change p none fun t => t.create p
  append p bytes := change p none fun t => t.append p bytes
  makeDirectory p := change p none fun t => t.makeDirectory p
  rename source target := change source (some target) fun t => t.rename source target
  remove p := change p none fun t => t.remove p

end Tree

end Offside
