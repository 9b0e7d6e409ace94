import Offside.Text.Digit
import Offside.Value

/-!
# Parts of values

A value may have **entries**, which are asked for by a key: a number where they are in a row, a
name where they have names.  It may have **members**, which are asked for by name too: the two
parts of a number, and the kind that every value is of.  A kind is no value, but it is found in
the same way and may be asked for its own name.

## Main definitions

* `Key` — what an entry is asked for by.
* `Found` — a value or a kind.
* `Found.member`, `Found.entry` — the parts.
* `NoPart` — why there is no such part.
-/

namespace Offside

/-! ### What is asked for and what is found -/

/-- What an entry is asked for by. -/
inductive Key where
  /-- A name. -/
  | name (s : String)
  /-- A place in a row, counted from zero. -/
  | place (n : Nat)
  deriving DecidableEq, Repr

/-- A key inside a message. -/
def Key.shown : Key → String
  | name s => Text.quoted s.codePoints
  | place n => toString n

/-- What is found in values. -/
inductive Found where
  /-- A value. -/
  | value (v : Value)
  /-- The kind of some values, which has a name. -/
  | kind (name : String)

/-- What is found, in running text. -/
def Found.plain : Found → String
  | value v => v.plain
  | kind name => s!"<class '{name}'>"

/-- What is found, inside a message. -/
def Found.shown : Found → String
  | value v => v.shown
  | kind name => s!"<class '{name}'>"

/-- The name of the kind of what is found. -/
def Found.typeName : Found → String
  | value v => v.typeName
  | kind _ => "type"

/-- Why there is no such part. -/
inductive NoPart where
  /-- There is no member of this name. -/
  | noMember (f : Found) (name : String)
  /-- There are entries, but none of this key. -/
  | noEntry (k : Key)
  /-- There are fewer entries in the row. -/
  | tooFew (v : Value)
  /-- The entries are in a row and have no names. -/
  | unnamed (v : Value)
  /-- There are no entries. -/
  | noEntries (f : Found)

/-- The lack of a part in words. -/
def NoPart.message : NoPart → String
  | noMember (.value v) name => s!"'{v.typeName}' object has no attribute '{name}'"
  | noMember (.kind kind) name => s!"type object '{kind}' has no attribute '{name}'"
  | noEntry k => k.shown
  | tooFew (.text _) => "string index out of range"
  | tooFew v => s!"{v.typeName} index out of range"
  | unnamed (.text _) => "string indices must be integers, not 'str'"
  | unnamed v => s!"{v.typeName} indices must be integers or slices, not str"
  | noEntries (.value v) => s!"'{v.typeName}' object is not subscriptable"
  | noEntries (.kind kind) => s!"type '{kind}' is not subscriptable"

/-! ### Members -/

/-- The parts of a whole number. -/
def Value.wholeMember? (n : Int) : String → Option Value
  | "real" | "numerator" => some (.int n)
  | "imag" => some (.int 0)
  | "denominator" => some (.int 1)
  | _ => none

/-- The parts of a number with a point. -/
def Value.realMember? (b : Binary) : String → Option Value
  | "real" => some (.real b)
  | "imag" => some (.real (.finite false 0))
  | _ => none

/-- The part of a value that has a name. -/
def Value.member? : Value → String → Option Value
  | bool b, name => wholeMember? b.toInt name
  | int n, name => wholeMember? n name
  | real b, name => realMember? b name
  | _, _ => none

/-- The member of a name. -/
def Found.member (f : Found) (name : String) : Except NoPart Found :=
  match f, name with
  | f, "__class__" => .ok (.kind f.typeName)
  | kind k, "__name__" | kind k, "__qualname__" => .ok (value (.text k))
  | kind _, "__module__" => .ok (value (.text "builtins"))
  | kind k, name => .error (.noMember (kind k) name)
  | value v, name => match v.member? name with
    | some part => .ok (value part)
    | none => .error (.noMember (value v) name)

/-! ### Entries -/

/-- The entry at a place of a row that is part of a value. -/
def Value.at (whole : Value) (row : List Value) : Key → Except NoPart Value
  | .name _ => .error (.unnamed whole)
  | .place n => match row[n]? with
    | some v => .ok v
    | none => .error (.tooFew whole)

/-- The entry of a key: a character of a text, an item of a list, or what stands under a name. -/
def Value.entry (v : Value) (k : Key) : Except NoPart Value :=
  match v, k with
  | object entries, .name s => match entries.lookup s with
    | some v => .ok v
    | none => .error (.noEntry k)
  | object _, .place _ => .error (.noEntry k)
  | v, k => match v.items? with
    | some row => v.at row k
    | none => .error (.noEntries (.value v))

/-- The entry of a key. -/
def Found.entry (f : Found) (k : Key) : Except NoPart Found :=
  match f with
  | value v => (v.entry k).map value
  | kind _ => .error (.noEntries f)

end Offside
