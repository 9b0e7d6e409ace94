import Offside.Settings.Assignments.Statement
import Offside.Text.CodePoint

/-!
# Files of assignments

What the names in a file of assignments stand for in the end.

A value may refer to variables: `${name}` stands for what the variable holds, and `${name:-text}`
for the text if there is no such variable.  What the file has assigned before counts for more
than what the process knows.

## Main definitions

* `expand` — a value with the variables it refers to.
* `assigned` — the names that a file assigns, with their values.
* `unreadable` — where it cannot be read.
-/

namespace Offside.Assignments

/-! ### References to variables -/

/-- A reference to a variable. -/
structure Reference where
  /-- The name of the variable. -/
  name : List Char
  /-- What stands for it if there is none. -/
  usual : List Char := []
  /-- How many characters the reference has. -/
  length : Nat
  deriving DecidableEq, Repr

/-- The reference that a text after `${` starts with. -/
def reference? (text : List Char) : Option Reference :=
  let name := text.takeWhile fun c => c ≠ '\x7d' ∧ c ≠ ':'
  match text.drop name.length with
  | ':' :: '-' :: rest =>
    let usual := rest.takeWhile (· ≠ '\x7d')
    if usual.length < rest.length then
      some { name, usual, length := name.length + usual.length + 3 }
    else none
  | '\x7d' :: _ => some { name, length := name.length + 1 }
  | _ => none

/-- A text with the variables it refers to; `find` knows what they hold. -/
def expand (find : String → Option (List CodePoint)) : List Char → List CodePoint
  | [] => []
  | '$' :: '\x7b' :: rest => match reference? rest with
    | some r =>
      (find (String.ofList r.name)).getD (r.usual.map .char) ++ expand find (rest.drop r.length)
    | none => .char '$' :: expand find ('\x7b' :: rest)
  | c :: rest => .char c :: expand find rest
termination_by text => text.length
decreasing_by all_goals simp only [List.length_cons, List.length_drop]; omega

/-! ### Names and values -/

/-- Entries with one more: a name keeps its place and gets the new value. -/
def put {α : Type} (entries : List (String × α)) (name : String) (a : α) : List (String × α) :=
  if entries.any fun entry => entry.1 = name then
    entries.map fun entry => if entry.1 = name then (name, a) else entry
  else entries ++ [(name, a)]

/-- What a name stands for: what the file has assigned to it, which is the empty text if it was
named without a value, or else what the process knows. -/
def find (inherited : List (String × List CodePoint))
    (entries : List (String × Option (List CodePoint))) (name : String) :
    Option (List CodePoint) :=
  match entries.lookup name with
  | some value => some (value.getD [])
  | none => inherited.lookup name

/-- The names that a file assigns, in order, with the values they have in the end. -/
def assigned (inherited : List (String × List CodePoint)) (statements : List Statement) :
    List (String × Option (List CodePoint)) :=
  statements.foldl (fun entries statement => match statement with
    | .assign name value =>
      put entries name (value.map fun text => expand (find inherited entries) text.toList)
    | .empty | .unreadable _ => entries) []

/-- The lines of the statements that cannot be read. -/
def unreadable (statements : List Statement) : List Nat :=
  statements.filterMap fun statement => match statement with
    | .unreadable line => some line
    | .empty | .assign .. => none

example :
    assigned [("m", "!".codePoints)] (statements "a=${m}\nb=${a}${n:-x}\na=2".toList) =
      [("a", some "2".codePoints), ("b", some "!x".codePoints)] := by
  cbv

end Offside.Assignments
