import Offside.Settings.Pairs
import Offside.Text.Case
import Offside.Value

/-!
# Settings

The conventions of a text as they are configured from outside.  There are seven fields.  What is
given for them is untyped and is checked as a whole: every field that cannot be accepted is
named, in the order of the fields, and after them whatever belongs to no field.

## Main definitions

* `Field` — the seven fields.
* `Settings` — accepted settings, with the conditions they satisfy.
* `Settings.Given` — what is given for the fields, before it is checked.
* `FieldError` — why a field cannot be accepted.
* `Settings.check` — accepting or refusing what is given.
-/

namespace Offside

/-! ### Fields -/

/-- A field of the settings. -/
inductive Field where
  | indentMark
  | dedentMark
  | newline
  | whitespace
  | keepWhitespace
  | lineEscapes
  | pairedEscapes
  deriving DecidableEq, Repr

namespace Field

/-- The fields in order. -/
def all : List Field :=
  [indentMark, dedentMark, newline, whitespace, keepWhitespace, lineEscapes, pairedEscapes]

theorem mem_all (f : Field) : f ∈ all := by cases f <;> decide

/-- The name under which a field is given. -/
def label : Field → String
  | indentMark => "indent_char"
  | dedentMark => "dedent_char"
  | newline => "newline_char"
  | whitespace => "whitespace_chars"
  | keepWhitespace => "keep_whitespace"
  | lineEscapes => "single_line_escapes"
  | pairedEscapes => "paired_escapes"

/-- The field of a name. -/
def ofLabel? (name : String) : Option Field := all.find? fun f => f.label = name

@[simp] theorem ofLabel?_label (f : Field) : ofLabel? f.label = some f := by
  cases f <;> decide +kernel

end Field

/-! ### Refusals -/

/-- Why a field cannot be accepted. -/
inductive FieldCause where
  /-- A mark or a newline is a text of another length than one. -/
  | notSingle (given : List CodePoint)
  /-- No whitespace character is left. -/
  | noWhitespace
  /-- A piece of the escape pairs is no pair. -/
  | notPair (piece : List CodePoint)
  /-- It is no text. -/
  | notText
  /-- It is a text that is to be read as a flag, and not all of it is characters. -/
  | notUnicode
  /-- It cannot be read as a flag. -/
  | unclearFlag
  /-- It is nothing like a flag. -/
  | notFlag
  /-- There is no such field. -/
  | noField
  deriving DecidableEq, Repr

namespace FieldCause

/-- The kind of a refusal. -/
def kind : FieldCause → String
  | notSingle _ => "value_error"
  | noWhitespace => "value_error"
  | notPair _ => "value_error"
  | notText => "string_type"
  | notUnicode => "string_unicode"
  | unclearFlag => "bool_parsing"
  | notFlag => "bool_type"
  | noField => "extra_forbidden"

/-- A refusal in words. -/
def message : FieldCause → String
  | notSingle given =>
    "Value error, must be a single character, got " ++ Text.quoted given
  | noWhitespace => "Value error, at least one whitespace character is required"
  | notPair piece => "Value error, escape pair must be two characters, got " ++ Text.quoted piece
  | notText => "Input should be a valid string"
  | notUnicode =>
    "Input should be a valid string, unable to parse raw data as a unicode string"
  | unclearFlag => "Input should be a valid boolean, unable to interpret input"
  | notFlag => "Input should be a valid boolean"
  | noField => "Extra inputs are not permitted"

end FieldCause

/-- A field that cannot be accepted. -/
structure FieldError where
  /-- Its name. -/
  name : String
  /-- What was given for it. -/
  given : Value
  /-- What is wrong with it. -/
  cause : FieldCause

/-! ### Settings -/

/-- Accepted settings. -/
@[ext] structure Settings where
  /-- The mark of an opening block. -/
  indentMark : CodePoint := '>'
  /-- The mark of a closing block. -/
  dedentMark : CodePoint := '<'
  /-- The character that ends a line. -/
  newline : CodePoint := '\n'
  /-- The whitespace characters. -/
  whitespace : List CodePoint := [' ', '\t']
  /-- There is at least one of them. -/
  whitespace_ne_nil : whitespace ≠ [] := by decide
  /-- Whether the leading whitespace of a line is delivered. -/
  keepWhitespace : Bool := false
  /-- The characters that escape the rest of their line. -/
  lineEscapes : List CodePoint := []
  /-- The pairs of characters that escape what is between them, as they are written. -/
  pairedEscapes : List CodePoint := []
  /-- Every piece of them is a pair. -/
  length_pairedEscapes : ∀ piece ∈ Pairs.split pairedEscapes, piece.length = 2 := by decide
  deriving Repr

namespace Settings

instance : DecidableEq Settings := fun _ _ => decidable_of_decidable_of_iff Settings.ext_iff.symm

/-- The pairs of characters that escape what is between them. -/
def pairs (s : Settings) : List (CodePoint × CodePoint) := Pairs.parse s.pairedEscapes

/-- The value of a field. -/
def value (s : Settings) : Field → Value
  | .indentMark => .text [s.indentMark]
  | .dedentMark => .text [s.dedentMark]
  | .newline => .text [s.newline]
  | .whitespace => .text s.whitespace
  | .keepWhitespace => .bool s.keepWhitespace
  | .lineEscapes => .text s.lineEscapes
  | .pairedEscapes => .text s.pairedEscapes

/-! ### Checking one field -/

/-- Accepts a text. -/
def checkText : Value → Except FieldCause (List CodePoint)
  | .text cs => .ok cs
  | _ => .error .notText

/-- Accepts a text of length one. -/
def checkMark : Value → Except FieldCause CodePoint
  | .text [c] => .ok c
  | .text cs => .error (.notSingle cs)
  | _ => .error .notText

/-- Accepts a text that is not empty. -/
def checkWhitespace (v : Value) : Except FieldCause { cs : List CodePoint // cs ≠ [] } :=
  match checkText v with
  | .error e => .error e
  | .ok cs => if h : cs = [] then .error .noWhitespace else .ok ⟨cs, h⟩

/-- Accepts a text that consists of pairs; the first piece that is none is named. -/
def checkPairs (v : Value) :
    Except FieldCause { cs : List CodePoint // ∀ piece ∈ Pairs.split cs, piece.length = 2 } :=
  match checkText v with
  | .error e => .error e
  | .ok cs =>
    match h : (Pairs.split cs).find? fun piece => piece.length ≠ 2 with
    | some piece => .error (.notPair piece)
    | none => .ok ⟨cs, by simpa using h⟩

/-- The texts that mean yes. -/
def trueTexts : List String := ["1", "on", "t", "true", "y", "yes"]

/-- The texts that mean no. -/
def falseTexts : List String := ["0", "off", "f", "false", "n", "no"]

/-- Accepts the numbers one and zero. -/
def checkBit (n : Int) : Except FieldCause Bool :=
  if n = 1 then .ok true else if n = 0 then .ok false else .error .unclearFlag

/-- Accepts flags, the numbers zero and one, and the texts that mean yes or no, in any case.  A
number that is not whole or does not fit into 64 bits is nothing like a flag. -/
def checkFlag : Value → Except FieldCause Bool
  | .bool b => .ok b
  | .int n => if -Nat.pow 2 63 ≤ n ∧ n < Nat.pow 2 63 then checkBit n else .error .notFlag
  | .real b => match b.whole? with
    | some n => if -Nat.pow 2 63 < n ∧ n < Nat.pow 2 63 then checkBit n else .error .notFlag
    | none => .error .notFlag
  | .text cs => match CodePoint.string? cs with
    | none => .error .notUnicode
    | some s =>
      let s := s.toLower
      if s ∈ trueTexts then .ok true else if s ∈ falseTexts then .ok false else .error .unclearFlag
  | _ => .error .notFlag

/-! ### Checking all fields -/

/-- What is given for the fields. -/
structure Given where
  /-- The values of the fields, where there are any. -/
  field : Field → Option Value := fun _ => none
  /-- What is given under names that are no fields. -/
  others : List (String × Value) := []

/-- What is given by name, in any letter case.  Of several names of one field the first counts. -/
def Given.ofEntries (entries : List (String × Value)) : Given where
  field f := (entries.find? fun entry => Text.lower entry.1 = f.label).map Prod.snd
  others := entries.filter fun entry => Field.ofLabel? (Text.lower entry.1) = none

/-- The values of the first, and where it has none those of the second. -/
def Given.over (first second : Given) : Given where
  field f := first.field f <|> second.field f
  others := second.others ++ first.others

/-- Checks a field, with the usual value where none is given. -/
def Given.check {α : Type} (g : Given) (f : Field) (check : Value → Except FieldCause α)
    (usual : α) : Except FieldError α :=
  match g.field f with
  | none => .ok usual
  | some v => match check v with
    | .ok a => .ok a
    | .error cause => .error ⟨f.label, v, cause⟩

/-- The refusal of one check. -/
def refusals {α : Type} : Except FieldError α → List FieldError
  | .ok _ => []
  | .error e => [e]

/-- Accepts what is given, or names everything that cannot be accepted. -/
def check (g : Given) : Except (List FieldError) Settings :=
  let usual : Settings := {}
  let indent := g.check .indentMark checkMark usual.indentMark
  let dedent := g.check .dedentMark checkMark usual.dedentMark
  let newline := g.check .newline checkMark usual.newline
  let whitespace := g.check .whitespace checkWhitespace ⟨_, usual.whitespace_ne_nil⟩
  let keep := g.check .keepWhitespace checkFlag usual.keepWhitespace
  let line := g.check .lineEscapes checkText usual.lineEscapes
  let paired := g.check .pairedEscapes checkPairs ⟨_, usual.length_pairedEscapes⟩
  match indent, dedent, newline, whitespace, keep, line, paired, g.others with
  | .ok indent, .ok dedent, .ok newline, .ok whitespace, .ok keep, .ok line, .ok paired, [] =>
    .ok
      { indentMark := indent, dedentMark := dedent, newline := newline
        whitespace := whitespace.1, whitespace_ne_nil := whitespace.2, keepWhitespace := keep
        lineEscapes := line, pairedEscapes := paired.1, length_pairedEscapes := paired.2 }
  | _, _, _, _, _, _, _, others =>
    .error
      (refusals indent ++ refusals dedent ++ refusals newline ++ refusals whitespace ++
        refusals keep ++ refusals line ++ refusals paired ++
        others.map fun entry => ⟨entry.1, entry.2, .noField⟩)

end Settings

end Offside
