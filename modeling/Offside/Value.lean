import Offside.Binary
import Offside.Text.Quoted

/-!
# Loosely typed values

Settings and options arrive from outside with no type of their own.  A `Value` is what may
arrive, and this module holds the few questions that are asked of one before it is either
accepted as a character, a flag or a text, or shown in the message that refuses it.

## Main definitions

* `Value` — null, flags, numbers, texts, lists and objects.
* `Value.char?` — the character of a text that has exactly one.
* `Value.truthy` — the flag a value stands for.
* `Value.floor?` — the whole part of a value that is a number.
* `Value.items?` — the parts of a value that has parts.
* `Value.shown` — the form of a value inside a message.
-/

namespace Offside

/-- A value of no declared type. -/
inductive Value where
  /-- No value. -/
  | null
  /-- A flag. -/
  | bool (b : Bool)
  /-- A whole number. -/
  | int (n : Int)
  /-- A number with a point or an exponent. -/
  | real (b : Binary)
  /-- A text. -/
  | text (cs : List CodePoint)
  /-- A list. -/
  | list (items : List Value)
  /-- Keys and values, in order. -/
  | object (entries : List (String × Value))
  deriving Inhabited

namespace Value

/-! ### Questions -/

/-- The character of a text of length one. -/
def char? : Value → Option CodePoint
  | text [c] => some c
  | _ => none

@[simp] theorem char?_text_singleton (c : CodePoint) : (text [c]).char? = some c := rfl

/-- What counts as true: everything but null, zero and whatever is empty. -/
def truthy : Value → Bool
  | null => false
  | bool b => b
  | int n => n ≠ 0
  | real b => !b.isZero
  | text cs => !cs.isEmpty
  | list items => !items.isEmpty
  | object entries => !entries.isEmpty

/-- The greatest whole number that a value is not below, where it is a number.  A flag counts as
one or zero. -/
def floor? : Value → Option Int
  | bool b => some b.toInt
  | int n => some n
  | real b => some b.floor
  | _ => none

/-- The least whole number that a value is not above, where it is a number. -/
def ceil? : Value → Option Int
  | bool b => some b.toInt
  | int n => some n
  | real b => some b.ceil
  | _ => none

/-- The value under a name in an object. -/
def entry? (name : String) : Value → Option Value
  | object entries => entries.lookup name
  | _ => none

/-- The parts a value can be taken apart into: the characters of a text, the items of a list,
the keys of an object.  The other values have none. -/
def items? : Value → Option (List Value)
  | text cs => some (cs.map fun c => text [c])
  | list items => some items
  | object entries => some (entries.map fun entry => text entry.1.codePoints)
  | _ => none

/-- The name of a value's type, as messages give it. -/
def typeName : Value → String
  | null => "NoneType"
  | bool _ => "bool"
  | int _ => "int"
  | real _ => "float"
  | text _ => "str"
  | list _ => "list"
  | object _ => "dict"

/-! ### The form inside a message -/

mutual

/-- The form of a value inside a message: texts are quoted, lists stand in brackets and objects
in braces. -/
def shown : Value → String
  | null => "None"
  | bool true => "True"
  | bool false => "False"
  | int n => toString n
  | real b => b.shown
  | text cs => Text.quoted cs
  | list items => "[" ++ ", ".intercalate (shownItems items) ++ "]"
  | object entries => "\x7b" ++ ", ".intercalate (shownEntries entries) ++ "\x7d"

/-- The form of each item of a list. -/
def shownItems : List Value → List String
  | [] => []
  | v :: rest => shown v :: shownItems rest

/-- The form of each entry of an object. -/
def shownEntries : List (String × Value) → List String
  | [] => []
  | (key, v) :: rest => (Text.quoted key.codePoints ++ ": " ++ shown v) :: shownEntries rest

end

/-- The text that a value becomes where one is wanted: a text stands as it is. -/
def asText : Value → List CodePoint
  | text cs => cs
  | v => v.shown.codePoints

/-- The form of a value put into running text, which is printed. -/
def plain (v : Value) : String := Text.printed v.asText

end Value

/-! ### Values that must be one character -/

/-- What a value that must be a single character is wanted for. -/
inductive CharUse where
  | indentMark
  | dedentMark
  | newline
  | whitespace
  | opening
  | closing
  deriving DecidableEq, Repr

/-- The name of a use in messages. -/
def CharUse.label : CharUse → String
  | indentMark => "indent_char"
  | dedentMark => "dedent_char"
  | newline => "newline_char"
  | whitespace => "whitespace character"
  | opening => "EscapeRule.open"
  | closing => "EscapeRule.close"

/-- A value that was to be a single character and is not. -/
structure NotSingle where
  /-- What it was wanted for. -/
  use : CharUse
  /-- What was given. -/
  given : Value

/-- The refusal in words. -/
def NotSingle.message (e : NotSingle) : String :=
  e.use.label ++ " must be a single character, got " ++ e.given.shown

/-- Accepts exactly the texts of length one. -/
def Value.single (use : CharUse) (v : Value) : Except NotSingle CodePoint :=
  match v.char? with
  | some c => .ok c
  | none => .error ⟨use, v⟩

@[simp] theorem Value.single_text_singleton (use : CharUse) (c : CodePoint) :
    (Value.text [c]).single use = .ok c := rfl

end Offside
