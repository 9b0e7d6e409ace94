import Offside.Command.Arguments
import Offside.Files.Path
import Offside.Settings.Override
import Offside.Value.Part

/-!
# The state of a run

What a run knows: the arguments it was started with, and what the stages have found out so far.
Each stage gets the state of the one before and adds to it.

A state may also be put together by name, with values of any type.  A value that is not what it
is used for is found out only where it is used, and that breaks the run off.

## Main definitions

* `Misuse` — a value that is used for what it is not.
* `State` — what a run knows.
* `State.ofEntries`, `State.ofNamespace` — a state by name.
* `State.override` — what the run asks for over the settings.
* `Report` — the figures of a transformation.
-/

namespace Offside

/-! ### Values of the wrong type -/

/-- A value that is used for what it is not. -/
inductive Misuse where
  /-- It is compared with a number. -/
  | notOrdered (v : Value)
  /-- It is read as a path from another one. -/
  | notRelative (v : Value)
  /-- It is read as a path. -/
  | notPath (v : Value)
  /-- It is asked for a part that it does not have. -/
  | noPart (e : NoPart)
  /-- It is joined to one text. -/
  | notJoinable (v : Value)
  /-- It is taken apart. -/
  | notIterable (v : Value)
  /-- It is a part of what is joined to one text, at an index. -/
  | notText (index : Nat) (v : Value)
  /-- It is an option of a state, and there is none of that name. -/
  | noOption (name : String)

/-- The misuse in words. -/
def Misuse.message : Misuse → String
  | notOrdered v => s!"'>=' not supported between instances of '{v.typeName}' and 'int'"
  | notRelative v => s!"unsupported operand type(s) for /: 'PosixPath' and '{v.typeName}'"
  | notPath v => s!"expected str, bytes or os.PathLike object, not {v.typeName}"
  | noPart e => e.message
  | notJoinable _ => "can only join an iterable"
  | notIterable v => s!"'{v.typeName}' object is not iterable"
  | notText index v => s!"sequence item {index}: expected str instance, {v.typeName} found"
  | noOption name => s!"ProgramState.__init__() got an unexpected keyword argument '{name}'"

/-! ### States -/

/-- Where a file is, as far as a state knows. -/
inductive Location where
  /-- At a path. -/
  | at (p : Path)
  /-- What was given in the place of a path. -/
  | other (v : Value)

/-- A location in running text. -/
def Location.plain : Location → String
  | .at p => p.toString
  | .other v => v.plain

/-- What a run knows. -/
structure State where
  /-- What it is asked to do. -/
  arguments : Arguments := {}
  /-- The directory of the input. -/
  inputDir : Path := {}
  /-- The directory of the output. -/
  outputDir : Path := {}
  /-- Whether the paths have been checked. -/
  ready : Value := .bool false
  /-- The input file. -/
  inputPath : Location := .at .root
  /-- The output file. -/
  outputPath : Location := .at .root
  /-- The figures of the transformation. -/
  report : Value := .null

namespace State

/-- The names of the two directories, which are given apart from the other options. -/
def directoryNames : List String := ["inputdir", "outputdir"]

/-- The state with an option, if there is one of that name. -/
def set? (s : State) (name : String) (v : Value) : Option State :=
  let a := s.arguments
  match name with
  | "verbosity" => some { s with arguments := { a with verbosity := v } }
  | "inputFile" => some { s with arguments := { a with inputFile := v } }
  | "outputFile" => some { s with arguments := { a with outputFile := v } }
  | "indentChar" => some { s with arguments := { a with indentChar := v } }
  | "dedentChar" => some { s with arguments := { a with dedentChar := v } }
  | "keepWhitespace" => some { s with arguments := { a with keepWhitespace := v } }
  | "lineEscape" => some { s with arguments := { a with lineEscape := v } }
  | "pairedEscape" => some { s with arguments := { a with pairedEscape := v } }
  | "whitespace" => some { s with arguments := { a with whitespace := v } }
  | "envOK" => some { s with ready := v }
  | "inputSourceFile" => some { s with inputPath := .other v }
  | "outputTargetFile" => some { s with outputPath := .other v }
  | "transformResult" => some { s with report := v }
  | name => if name ∈ directoryNames then some s else none

/-- A state with options by name; the first name that there is not is refused. -/
def ofEntries (s : State) : List (String × Value) → Except Misuse State
  | [] => .ok s
  | (name, v) :: rest => match s.set? name v with
    | some s => s.ofEntries rest
    | none => .error (.noOption name)

/-- A state with options by name, of which those that there are not and those that are null are
passed over. -/
def ofNamespace (s : State) (entries : List (String × Value)) : State :=
  entries.foldl (fun s (name, v) => match v with
    | .null => s
    | v => (s.set? name v).getD s) s

/-! ### What the run asks for -/

/-- A value that is given unless it is null. -/
def given? : Value → Option Value
  | .null => none
  | v => some v

/-- The texts of values that are joined to one text, the first of which has an index. -/
def joined (index : Nat) : List Value → Except Misuse (List (List CodePoint))
  | [] => .ok []
  | .text cs :: rest => (joined (index + 1) rest).map (cs :: ·)
  | v :: _ => .error (.notText index v)

/-- The characters that escape the rest of their line. -/
def lineEscapes (v : Value) : Except Misuse (List (List CodePoint)) :=
  if v.truthy then
    match v.items? with
    | some items => joined 0 items
    | none => .error (.notJoinable v)
  else .ok []

/-- The pairs that escape what is between them, which come after others. -/
def pairedEscapes (others : Nat) (v : Value) : Except Misuse (List (List CodePoint)) :=
  if v.truthy then
    match v.items? with
    | some items => joined others items
    | none => .error (.notIterable v)
  else .ok []

/-- What the run asks for over some settings. -/
def override (s : State) (settings : Settings) : Except Misuse Override := do
  let a := s.arguments
  let line ← lineEscapes a.lineEscape
  let paired ← pairedEscapes settings.pairs.length a.pairedEscape
  return {
    indentMark := given? a.indentChar, dedentMark := given? a.dedentChar
    whitespace := given? a.whitespace, keepWhitespace := a.keepWhitespace.truthy
    lineEscapes := line, pairedEscapes := paired }

end State

/-! ### Figures -/

/-- The figures of a transformation. -/
structure Report where
  /-- The file that was written. -/
  outputFile : List CodePoint
  /-- How many characters were written. -/
  units : Nat
  /-- How many of them are marks of opening blocks. -/
  indents : Nat
  /-- How many of them are marks of closing blocks. -/
  dedents : Nat
  deriving DecidableEq, Repr

/-- The figures by name. -/
def Report.value (r : Report) : Value :=
  .object
    [("status", .bool true), ("output_file", .text r.outputFile), ("units", .int r.units),
      ("indents", .int r.indents), ("dedents", .int r.dedents)]

end Offside
