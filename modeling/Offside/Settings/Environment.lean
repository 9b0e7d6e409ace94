import Offside.Settings
import Offside.Settings.Assignments

/-!
# Settings from the environment

Fields may be set by variables whose names are a fixed start and the name of the field, in any
letter case.  The variables come from the process and from a file of assignments; the process
wins.  A variable of the process that is no field is somebody else's, but the file is ours, so
what it sets must be a field.

## Main definitions

* `Environment` — the variables of the process and what the file says.
* `Environment.given` — what they set.
* `Environment.settings` — the settings that follow.
* `Environment.warning` — what is said about the parts of the file that cannot be read.
-/

namespace Offside

/-- The environment of a run. -/
structure Environment where
  /-- The variables of the process. -/
  inherited : List (String × List CodePoint) := []
  /-- What the file of assignments says. -/
  statements : List Assignments.Statement := []

namespace Environment

/-! ### Names -/

/-- What the name of every variable starts with, in lower case. -/
def nameStart : String := "indentdedent_"

/-- The variable of a field, in lower case. -/
def nameOf (f : Field) : String := nameStart ++ f.label

/-- Whether a name in lower case is that of a field, with or without the start that all
variables have. -/
def namesField (name : String) : Bool :=
  Field.all.any fun f => name = nameOf f ∨ name = f.label

/-- Entries with their names in lower case.  Of several with one name then, the last counts, in
the place of the first. -/
def lower {α : Type} (entries : List (String × α)) : List (String × α) :=
  entries.foldl (fun merged entry => Assignments.put merged (Text.lower entry.1) entry.2) []

/-! ### What is given -/

/-- What the process sets. -/
def byProcess (e : Environment) : Settings.Given :=
  let inherited := lower e.inherited
  { field := fun f => (inherited.lookup (nameOf f)).map .text }

/-- What the file sets.  What belongs to no field is kept under its name, if it has a value that
is not empty. -/
def byFile (e : Environment) : Settings.Given :=
  let assigned := lower (Assignments.assigned e.inherited e.statements)
  { field := fun f => ((assigned.lookup (nameOf f)).bind id).map .text
    others := assigned.filterMap fun (name, value) =>
      match value with
      | none => none
      | some text => if text = [] ∨ namesField name then none else some (name, .text text) }

/-- What the environment sets. -/
def given (e : Environment) : Settings.Given := e.byProcess.over e.byFile

/-- The settings that follow from an environment. -/
def settings (e : Environment) : Except (List FieldError) Settings := Settings.check e.given

/-! ### Warnings -/

/-- What is said about each part of the file that cannot be read. -/
def warning (e : Environment) : String :=
  String.join ((Assignments.unreadable e.statements).map fun line =>
    s!"python-dotenv could not parse statement starting at line {line}\n")

end Environment

end Offside
