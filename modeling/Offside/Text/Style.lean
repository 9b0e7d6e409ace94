import Offside.Text.Digit

/-!
# Styles

How a value is to be written: how wide, with what beside it, in what notation.  A style is given
by a short text, whose parts come in a fixed order and may all be missing:

* a character to fill up with and a mark for the side that the value is put to, or the mark
  alone: `<`, `>` and `^` for the start, the end and the middle, `=` to fill up after the sign;
* `+`, `-` or a blank for the sign of what is not negative;
* `z` for a zero without a sign;
* `#` for the marks that tell the notations apart;
* `0` to fill up with zeros, and the width;
* `,` or `_` between groups of digits;
* a point and the precision;
* one character for the notation.

## Main definitions

* `Style` — a style.
* `Style.Refusal` — why a text is no style, or a value cannot be written in one.
* `Style.ofChars` — the style that a text gives.
-/

namespace Offside

/-- The side that a value is put to. -/
inductive Side where
  /-- The start; the end is filled up. -/
  | start
  /-- The end; the start is filled up. -/
  | finish
  /-- The middle; both ends are filled up. -/
  | middle
  /-- Both ends: what is between the sign and the digits is filled up. -/
  | apart
  deriving DecidableEq, Repr

/-- The side of a mark. -/
def Side.ofMark? : Char → Option Side
  | '<' => some start
  | '>' => some finish
  | '^' => some middle
  | '=' => some apart
  | _ => none

/-- A style. -/
structure Style where
  /-- The character to fill up with. -/
  fill : Option Char := none
  /-- The side that the value is put to. -/
  side : Option Side := none
  /-- The mark for the sign of what is not negative. -/
  sign : Option Char := none
  /-- Whether a zero has no sign. -/
  plainZero : Bool := false
  /-- Whether the notations are to be told apart. -/
  marked : Bool := false
  /-- Whether to fill up with zeros. -/
  zeros : Bool := false
  /-- The least number of characters. -/
  width : Nat := 0
  /-- The character between groups of digits. -/
  separator : Option Char := none
  /-- The number of characters, digits or places to show. -/
  precision : Option Nat := none
  /-- The character of the notation. -/
  kind : Option Char := none
  deriving DecidableEq, Repr

namespace Style

/-! ### Refusals -/

/-- Why a text is no style, or a value cannot be written in one. -/
inductive Refusal where
  /-- A number has too many digits. -/
  | tooManyDigits
  /-- There is a point without a precision. -/
  | noPrecision
  /-- There are two characters between groups. -/
  | twoSeparators
  /-- Something is left over of the text, which was to be a style for a type. -/
  | leftOver (text : List Char) (typeName : String)
  /-- The notation has no groups of digits. -/
  | noGroups (separator kind : Char)
  /-- There is no such notation for a type. -/
  | noKind (kind : Char) (typeName : String)
  /-- A text has no sign. -/
  | signOfText
  /-- A text has no blank for a sign. -/
  | blankOfText
  /-- A text is no zero. -/
  | zeroOfText
  /-- A text has one notation. -/
  | marksOfText
  /-- A text cannot be filled up after a sign. -/
  | apartText
  /-- A whole number is shown with all its digits. -/
  | precisionOfWhole
  /-- A whole zero has no sign in any case. -/
  | zeroOfWhole
  /-- A character has no sign. -/
  | signOfChar
  /-- A character has one notation. -/
  | marksOfChar
  /-- A number is no character, by far. -/
  | beyondChars
  /-- A number is no character. -/
  | noChar
  /-- A whole number is beyond the numbers with a point. -/
  | beyondReals
  /-- The precision is too great. -/
  | tooPrecise
  /-- The width is too great. -/
  | tooWide
  /-- Values of a type have no styles. -/
  | noStyles (typeName : String)
  deriving DecidableEq, Repr

/-- A character inside a message: itself if it is neither a control character nor beyond the
first 127, and else its number. -/
def shownKind (c : Char) : String :=
  if 0x20 < c.toNat ∧ c.toNat < 0x80 then String.singleton c
  else "\\x" ++ String.ofList (Nat.toDigits 16 c.toNat)

/-- A refusal in words. -/
def Refusal.message : Refusal → String
  | tooManyDigits => "Too many decimal digits in format string"
  | noPrecision => "Format specifier missing precision"
  | twoSeparators => "Cannot specify both ',' and '_'."
  | leftOver text typeName =>
    "Invalid format specifier '" ++ String.ofList text ++ "' for object of type '" ++
      typeName ++ "'"
  | noGroups separator kind => s!"Cannot specify '{separator}' with '{shownKind kind}'."
  | noKind kind typeName =>
    s!"Unknown format code '{shownKind kind}' for object of type '{typeName}'"
  | signOfText => "Sign not allowed in string format specifier"
  | blankOfText => "Space not allowed in string format specifier"
  | zeroOfText => "Negative zero coercion (z) not allowed in string format specifier"
  | marksOfText => "Alternate form (#) not allowed in string format specifier"
  | apartText => "'=' alignment not allowed in string format specifier"
  | precisionOfWhole => "Precision not allowed in integer format specifier"
  | zeroOfWhole => "Negative zero coercion (z) not allowed in integer format specifier"
  | signOfChar => "Sign not allowed with integer format specifier 'c'"
  | marksOfChar => "Alternate form (#) not allowed with integer format specifier 'c'"
  | beyondChars => "Python int too large to convert to C long"
  | noChar => "%c arg not in range(0x110000)"
  | beyondReals => "int too large to convert to float"
  | tooPrecise => "precision too big"
  | tooWide => ""
  | noStyles typeName => s!"unsupported format string passed to {typeName}.__format__"

/-! ### The parts of a style -/

/-- The greatest number that may stand in a template. -/
def greatest : Nat := Nat.pow 2 63 - 1

/-- The number at the start of a text, if there is one, and what follows it. -/
def scanNumber (text : List Char) : Except Refusal (Option Nat × List Char) :=
  let digits := text.takeWhile Text.isDecimalDigit
  let n := Text.decimalNumber digits
  if greatest < n then .error .tooManyDigits
  else .ok (if digits = [] then none else some n, text.drop digits.length)

/-- The side, with the character to fill up with if there is one. -/
def scanSide (s : Style) (text : List Char) : Style × List Char :=
  match text with
  | fill :: mark :: rest => match Side.ofMark? mark with
    | some side => ({ s with fill := some fill, side := some side }, rest)
    | none => alone s text
  | _ => alone s text
where
  /-- The side from its mark alone. -/
  alone (s : Style) (text : List Char) : Style × List Char :=
    match text with
    | mark :: rest => match Side.ofMark? mark with
      | some side => ({ s with side := some side }, rest)
      | none => (s, text)
    | [] => (s, [])

/-- The sign, and the two flags before the width. -/
def scanFlags (s : Style) (text : List Char) : Style × List Char :=
  let (s, text) := match text with
    | c :: rest =>
      if c = '+' ∨ c = '-' ∨ c = ' ' then ({ s with sign := some c }, rest) else (s, text)
    | [] => (s, text)
  let (s, text) := match text with
    | 'z' :: rest => ({ s with plainZero := true }, rest)
    | text => (s, text)
  match text with
  | '#' :: rest => ({ s with marked := true }, rest)
  | text => (s, text)

/-- The width, with a zero before it to fill up with zeros unless it is said what to fill up
with. -/
def scanWidth (s : Style) (text : List Char) : Except Refusal (Style × List Char) :=
  let (s, text) := match s.fill, text with
    | none, '0' :: rest => ({ s with zeros := true }, rest)
    | _, text => (s, text)
  (scanNumber text).map fun (width, rest) => ({ s with width := width.getD 0 }, rest)

/-- The character between groups.  There may not be another one. -/
def scanSeparator (s : Style) (text : List Char) : Except Refusal (Style × List Char) :=
  match text with
  | ',' :: '_' :: _ | '_' :: ',' :: _ => .error .twoSeparators
  | c :: rest =>
    .ok (if c = ',' ∨ c = '_' then ({ s with separator := some c }, rest) else (s, text))
  | [] => .ok (s, [])

/-- The precision after a point. -/
def scanPrecision (s : Style) (text : List Char) : Except Refusal (Style × List Char) :=
  match text with
  | '.' :: rest => match scanNumber rest with
    | .error e => .error e
    | .ok (none, _) => .error .noPrecision
    | .ok (precision, rest) => .ok ({ s with precision := precision }, rest)
  | text => .ok (s, text)

/-- Whether digits of a notation can stand in groups with a character between them. -/
def allowsGroups (separator : Char) : Option Char → Bool
  | none => true
  | some kind =>
    kind ∈ ['d', 'e', 'f', 'g', 'E', 'G', '%', 'F'] ∨
      separator = '_' ∧ kind ∈ ['b', 'o', 'x', 'X']

/-- The style that a text gives for values of a type, which have a usual notation. -/
def ofChars (typeName : String) (usual : Option Char) (text : List Char) :
    Except Refusal Style := do
  let (s, rest) := scanSide {} text
  let (s, rest) := scanFlags s rest
  let (s, rest) ← scanWidth s rest
  let (s, rest) ← scanSeparator s rest
  let (s, rest) ← scanPrecision s rest
  let s ← match rest with
    | [] => .ok { s with kind := usual }
    | [c] => .ok { s with kind := some c }
    | _ => .error (.leftOver text typeName)
  match s.separator, s.kind with
  | some separator, some kind =>
    if allowsGroups separator (some kind) then .ok s else .error (.noGroups separator kind)
  | _, _ => .ok s

end Style

end Offside
