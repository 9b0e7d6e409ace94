import Offside.Value.Styled

/-!
# Templates

A template is a text with fields in braces, each of which stands for a value.  A brace that is
meant as such is written twice.

A field starts with the name of a value.  From there it may go on to parts of the value: to a
member after a point, and to an entry between brackets.  Behind an exclamation mark it may ask
for one of the forms that values have as texts, and behind a colon for a style.  A style may hold
fields itself, which are filled first; their styles may not.

A template is filled from left to right and the first failure ends it, so a field without a
value is reported even if a later brace is out of place.

## Main definitions

* `Template.fill` — a template with the values in the place of its fields.
* `Template.Failure` — why a template cannot be filled.
-/

namespace Offside.Template

/-! ### Failures -/

/-- Why a template cannot be filled. -/
inductive Failure where
  /-- There is no value of this name. -/
  | noValue (name : String)
  /-- A field has a number for a name, and values have none. -/
  | noPosition (number : Nat)
  /-- A number in a name is too great. -/
  | tooManyDigits
  /-- A part of a value has no name. -/
  | noPartName
  /-- Something else than a part follows an entry. -/
  | noPartMark
  /-- A value has no such part. -/
  | noPart (e : NoPart)
  /-- A field asks for a form that there is not. -/
  | noForm (form : Char)
  /-- A value cannot be written in a style. -/
  | style (e : Style.Refusal)
  /-- A style holds a field with a style that holds a field. -/
  | tooDeep
  /-- An opening brace is the last character. -/
  | loneOpening
  /-- A closing brace closes nothing. -/
  | loneClosing
  /-- The text ends in the name of a field. -/
  | unclosed
  /-- The name of a field holds an opening brace. -/
  | openingInName
  /-- The text ends where a field says which form it asks for. -/
  | formMissing
  /-- The form a field asks for is more than one character. -/
  | formTooLong
  /-- The text ends in the style of a field. -/
  | styleUnclosed

/-- The failure in words. -/
def Failure.message : Failure → String
  | noValue name => Text.quoted name.codePoints
  | noPosition number => s!"Replacement index {number} out of range for positional args tuple"
  | tooManyDigits => "Too many decimal digits in format string"
  | noPartName => "Empty attribute in format string"
  | noPartMark => "Only '.' or '[' may follow ']' in format field specifier"
  | noPart e => e.message
  | noForm form =>
    "Unknown conversion specifier " ++
      if form = '\x7F' then "\\x7f" else Style.shownKind form
  | style e => e.message
  | tooDeep => "Max string recursion exceeded"
  | loneOpening => "Single '\x7b' encountered in format string"
  | loneClosing => "Single '\x7d' encountered in format string"
  | unclosed => "expected '\x7d' before end of string"
  | openingInName => "unexpected '\x7b' in field name"
  | formMissing => "end of string while looking for conversion specifier"
  | formTooLong => "expected ':' after conversion specifier"
  | styleUnclosed => "unmatched '\x7b' in format spec"

/-! ### The name of a field -/

/-- The number that a name is, if it is one.  Digits at the start of a name that is none count
too where they are too many. -/
def number? (name : List Char) : Except Failure (Option Nat) :=
  let digits := name.takeWhile Text.isDecimalDigit
  let n := Text.decimalNumber digits
  if Style.greatest < n then .error .tooManyDigits
  else .ok (if name ≠ [] ∧ digits = name then some n else none)

/-- Whether a character in the name of a field leads to a part. -/
def leadsOn (c : Char) : Bool := c = '.' || c = '['

/-- The value of a name.  A field without a name has the number of the fields of its kind before
it, which is zero because the first of them fails. -/
def named (values : List (String × Value)) (name : List Char) : Except Failure Found := do
  match ← number? name with
  | some n => .error (.noPosition n)
  | none =>
    if name = [] then .error (.noPosition 0)
    else match values.lookup (String.ofList name) with
      | some v => .ok (.value v)
      | none => .error (.noValue (String.ofList name))

/-- The member that a name asks for. -/
def member (f : Found) (name : List Char) : Except Failure Found :=
  if name = [] then .error .noPartName
  else (f.member (String.ofList name)).mapError .noPart

/-- The entry that a key asks for. -/
def entry (f : Found) (key : List Char) : Except Failure Found := do
  let place ← number? key
  if key = [] then .error .noPartName
  else (f.entry (match place with
    | some n => .place n
    | none => .name (String.ofList key))).mapError .noPart

/-- The part that the rest of a name leads to. -/
def follow (f : Found) (rest : List Char) : Except Failure Found :=
  match rest with
  | [] => .ok f
  | c :: rest =>
    if c = '.' then
      let name := rest.takeWhile (!leadsOn ·)
      match member f name with
      | .error e => .error e
      | .ok f => follow f (rest.drop name.length)
    else if c = '[' then
      let key := rest.takeWhile (· ≠ ']')
      match entry f key with
      | .error e => .error e
      | .ok f => follow f (rest.drop (key.length + 1))
    else .error .noPartMark
termination_by rest.length
decreasing_by all_goals simp only [List.length_cons, List.length_drop]; omega

/-- What the name of a field stands for. -/
def find (values : List (String × Value)) (name : List Char) : Except Failure Found := do
  let start := name.takeWhile (!leadsOn ·)
  follow (← named values start) (name.drop start.length)

/-! ### One field -/

/-- A form that values have as texts: `s` is the one in running text, `r` the one inside a
message, and `a` is the latter without characters beyond ASCII. -/
def inForm (f : Found) : Option Char → Except Failure Found
  | none => .ok f
  | some 's' => .ok (.value (.text f.plain))
  | some 'r' => .ok (.value (.text f.shown))
  | some 'a' => .ok (.value (.text (String.ofList (Text.spellBeyondAscii f.shown.toList))))
  | some form => .error (.noForm form)

/-- The text of a field: what its name stands for, in a form and a style.  The style is filled
as a template itself if it holds a field. -/
def field (values : List (String × Value)) (fillStyle : List Char → Except Failure (List Char))
    (name : List Char) (form : Option Char) (style : List Char) : Except Failure (List Char) := do
  let found ← inForm (← find values name) form
  let style ← if '\x7b' ∈ style then fillStyle style else .ok style
  (found.styled style).mapError .style

/-! ### The whole template -/

/-- Where in a template the reading is.  What is held is held last character first. -/
inductive Place where
  /-- Between fields. -/
  | between
  /-- In the name of a field, and there perhaps between brackets. -/
  | inName (held : List Char) (inBrackets : Bool)
  /-- Before the letter of the form. -/
  | beforeForm (name : List Char)
  /-- After the letter of the form. -/
  | afterForm (name : List Char) (form : Char)
  /-- In the style of a field, which `opened` braces keep open. -/
  | inStyle (name : List Char) (form : Option Char) (held : List Char) (opened : Nat)

/-- What is wrong with a text that ends at a place. -/
def Place.cut : Place → Option Failure
  | between => none
  | inName [] false => some .loneOpening
  | inName .. => some .unclosed
  | beforeForm _ => some .formMissing
  | afterForm .. => some .styleUnclosed
  | inStyle .. => some .styleUnclosed

/-- What a character at a place adds to the text, and the place after it; `filled` is the text of
a field.  In the name of a field an opening brace that comes first is one that is meant as
such. -/
def Place.step (filled : List Char → Option Char → List Char → Except Failure (List Char))
    (c : Char) : Place → Except Failure (List Char × Place)
  | between => .ok (if c = '\x7b' then ([], inName [] false) else ([c], between))
  | inName held true => .ok ([], inName (c :: held) (c ≠ ']'))
  | inName held false =>
    if c = '\x7b' then
      if held = [] then .ok ([c], between) else .error .openingInName
    else if c = '\x7d' then (filled held.reverse none []).map (·, between)
    else if c = '!' then .ok ([], beforeForm held.reverse)
    else if c = ':' then .ok ([], inStyle held.reverse none [] 1)
    else .ok ([], inName (c :: held) (c = '['))
  | beforeForm name => .ok ([], afterForm name c)
  | afterForm name form =>
    if c = '\x7d' then (filled name (some form) []).map (·, between)
    else if c = ':' then .ok ([], inStyle name (some form) [] 1)
    else .error .formTooLong
  | inStyle name form held opened =>
    if c = '\x7d' ∧ opened = 1 then (filled name form held.reverse).map (·, between)
    else
      let opened := if c = '\x7b' then opened + 1 else if c = '\x7d' then opened - 1 else opened
      .ok ([], inStyle name form (c :: held) opened)

/-- Fills the rest of a template from a place. -/
def fillFrom (filled : List Char → Option Char → List Char → Except Failure (List Char)) :
    Place → List Char → Except Failure (List Char)
  | place, [] => match place.cut with
    | none => .ok []
    | some failure => .error failure
  | .between, '\x7d' :: '\x7d' :: rest => (fillFrom filled .between rest).map ('\x7d' :: ·)
  | .between, '\x7d' :: _ => .error .loneClosing
  | place, c :: rest => match place.step filled c with
    | .error failure => .error failure
    | .ok (text, next) => (fillFrom filled next rest).map (text ++ ·)

/-- Fills a template whose fields are so deep in one another. -/
def fillTo (values : List (String × Value)) : Nat → List Char → Except Failure (List Char)
  | 0, _ => .error .tooDeep
  | depth + 1, text => fillFrom (field values (fillTo values depth)) .between text

/-- A template with the values in the place of its fields. -/
def fill (values : List (String × Value)) (template : String) : Except Failure String :=
  (fillTo values 2 template.toList).map String.ofList

end Offside.Template
