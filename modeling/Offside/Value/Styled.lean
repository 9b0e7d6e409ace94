import Offside.Text.Style
import Offside.Value.Part

/-!
# Values in a style

Texts, flags and numbers can be written in a style; other values only as they are.  A number is
written as its sign, a lead that tells its base, its digits, and what follows them.  The digits
may be in groups, and zeros to fill up with come into the groups too.

## Main definitions

* `Style.padded` — a text filled up.
* `Style.grouped` — digits in groups.
* `Numeral`, `Style.layOut` — the pieces of a number, and the number in a style.
* `Found.styled` — a value in a style.
-/

namespace Offside

namespace Style

/-! ### Filling up -/

/-- The character to fill up with. -/
def filler (s : Style) : Char := s.fill.getD (if s.zeros then '0' else ' ')

/-- So many characters to fill up with. -/
def filling (s : Style) (count : Nat) : List Char := List.replicate count s.filler

/-- The greatest width that there is room for. -/
def widest : Nat := Nat.pow 2 26

/-- A text with characters on both sides, so that it has the width of the style. -/
def padded (s : Style) (side : Side) (text : List Char) : List Char :=
  let missing := s.width - text.length
  match side with
  | .start => text ++ s.filling missing
  | .middle => s.filling (missing / 2) ++ text ++ s.filling (missing - missing / 2)
  | _ => s.filling missing ++ text

/-! ### Texts -/

/-- A text in a style. -/
def text (s : Style) (cs : List Char) : Except Refusal (List Char) :=
  if s.kind ≠ some 's' then .error (.noKind (s.kind.getD 's') "str")
  else if s.sign = some ' ' then .error .blankOfText
  else if s.sign ≠ none then .error .signOfText
  else if s.plainZero then .error .zeroOfText
  else if s.marked then .error .marksOfText
  else if s.side = some .apart then .error .apartText
  else if widest < s.width then .error .tooWide
  else .ok (s.padded (s.side.getD .start) (match s.precision with
    | some n => cs.take n
    | none => cs))

/-! ### Numbers -/

/-- The pieces of a number that is to be written in a style. -/
structure Numeral where
  /-- Whether there is a minus sign before it. -/
  negative : Bool
  /-- What tells its base. -/
  lead : List Char := []
  /-- The digits before the point. -/
  digits : List Char
  /-- All that follows them. -/
  rest : List Char := []

/-- The sign of a number. -/
def signOf (s : Style) (negative : Bool) : List Char :=
  if negative then ['-']
  else match s.sign with
    | some '+' => ['+']
    | some ' ' => [' ']
    | _ => []

/-- Digits with a character between groups of `size`, counted from the end. -/
def separated (separator : Char) (size : Nat) : List Char → List Char
  | [] => []
  | c :: rest =>
    if rest ≠ [] ∧ rest.length % size = 0 then c :: separator :: separated separator size rest
    else c :: separated separator size rest

/-- How many digits reach a width when there are groups of `size`. -/
def digitsFor (size width : Nat) : Nat := width - (width - 1) / (size + 1)

/-- The size of the groups of a notation. -/
def groupSize (s : Style) : Nat :=
  if s.kind ∈ [some 'b', some 'o', some 'x', some 'X'] then 4 else 3

/-- Digits in the groups of the style, with as many zeros before them as it takes to reach a
width. -/
def grouped (s : Style) (digits : List Char) (width : Nat) : List Char :=
  if digits = [] then []
  else match s.separator with
    | none => Decimal.zeros (width - digits.length) ++ digits
    | some separator =>
      let zeros := digitsFor s.groupSize width - digits.length
      separated separator s.groupSize (Decimal.zeros zeros ++ digits)

/-- A number in a style.  Zeros that fill up what is between sign and digits are digits too. -/
def layOut (s : Style) (n : Numeral) : List Char :=
  let side := s.side.getD (if s.zeros then .apart else .finish)
  let front := s.signOf n.negative ++ n.lead
  let around := front.length + n.rest.length
  let width := if s.filler = '0' ∧ side = .apart then s.width - around else 0
  let body := s.grouped n.digits width ++ n.rest
  if side = .apart then front ++ s.filling (s.width - (front ++ body).length) ++ body
  else s.padded side (front ++ body)

/-- A number in a style, if there is room for it. -/
def fit (s : Style) (n : Numeral) : Except Refusal (List Char) :=
  if widest < s.width then .error .tooWide else .ok (s.layOut n)

example : digitsFor 3 8 = 7 ∧ digitsFor 3 7 = 6 ∧ digitsFor 4 0 = 0 := by decide
example : separated ',' 3 "1234567".toList = "1,234,567".toList := by decide +kernel

/-! ### Whole numbers -/

/-- The base of a notation, and what tells it. -/
def base : Char → Nat × List Char
  | 'b' => (2, ['0', 'b'])
  | 'o' => (8, ['0', 'o'])
  | 'x' => (16, ['0', 'x'])
  | 'X' => (16, ['0', 'X'])
  | _ => (10, [])

/-- A whole number in the notation of a base. -/
def wholeNumeral (s : Style) (kind : Char) (n : Int) : Numeral :=
  let (base, lead) := base kind
  let digits := Nat.toDigits base n.natAbs
  { negative := n < 0, lead := if s.marked then lead else []
    digits := if kind = 'X' then digits.map Char.toUpper else digits }

/-- The character of a number, which is no digit. -/
def charNumeral (s : Style) (n : Int) : Except Refusal Numeral :=
  if s.sign ≠ none then .error .signOfChar
  else if s.marked then .error .marksOfChar
  else if n < -Nat.pow 2 63 ∨ Nat.pow 2 63 ≤ n then .error .beyondChars
  else if n < 0 ∨ 0x110000 ≤ n then .error .noChar
  else .ok { negative := false, digits := [], rest := [Char.ofNat n.toNat] }

/-! ### Numbers with a point -/

/-- A count of units in a notation: `f` and `e` have so many places after the point, and any
other has so many digits. -/
def units (kind : Char) (precision : Nat) (marked : Bool) (units : Nat) : List Char :=
  match kind with
  | 'f' => (Binary.toPlaces units precision).positional precision marked
  | 'e' => (Binary.toDigits units (precision + 1)).scientific precision marked
  | _ =>
    let digits := max precision 1
    (Binary.toDigits units digits).general digits digits 0 marked

/-- A count of units where no notation is asked for: in its one form, or with so many digits.
There is a digit after the point where there is no exponent. -/
def unitsPlain (precision : Option Nat) (marked : Bool) (units : Nat) : List Char :=
  match precision with
  | none => (Binary.shortest units).general 0 16 1 marked
  | some precision =>
    let digits := max precision 1
    (Binary.toDigits units digits).general digits (digits - 1) 1 marked

/-- A number without its sign, in the notation of the style. -/
def realText (s : Style) (kind : Option Char) (b : Binary) : List Char :=
  match b, kind with
  | .finite _ n, none => unitsPlain s.precision s.marked n
  | .finite _ n, some kind => units kind (s.precision.getD 6) s.marked n
  | b, _ => b.shownSize

/-- The pieces of a number with a point.  All that is not a digit at the start comes after the
digits. -/
def realNumeral (s : Style) (b : Binary) : Numeral :=
  let percent := s.kind = some '%'
  let b := if percent then b.hundredfold else b
  let kind := s.kind.map fun kind =>
    if percent then 'f' else if kind = 'n' then 'g' else kind.toLower
  let text := s.realText kind b
  let text := match s.kind with
    | some 'E' | some 'F' | some 'G' => text.map Char.toUpper
    | _ => text
  let digits := text.takeWhile Char.isDigit
  let isZero := (text.takeWhile fun c => c.toLower ≠ 'e').all fun c => c = '0' ∨ c = '.'
  { negative := b.negative && !(s.plainZero && isZero), digits := digits
    rest := text.drop digits.length ++ if percent then ['%'] else [] }

/-- A number with a point in a style. -/
def real (s : Style) (typeName : String) (b : Binary) : Except Refusal (List Char) :=
  match s.kind with
  | none | some 'e' | some 'E' | some 'f' | some 'F' | some 'g' | some 'G' | some 'n'
  | some '%' =>
    if Nat.pow 2 31 ≤ s.precision.getD 0 then .error .tooPrecise else s.fit (s.realNumeral b)
  | some kind => .error (.noKind kind typeName)

/-- A whole number in a style. -/
def whole (s : Style) (typeName : String) (n : Int) : Except Refusal (List Char) :=
  match s.kind.getD 'd' with
  | 'e' | 'E' | 'f' | 'F' | 'g' | 'G' | '%' => match Binary.ofInt n with
    | .finite negative units => s.real typeName (.finite negative units)
    | _ => .error .beyondReals
  | kind =>
    if kind ∉ ['b', 'c', 'd', 'o', 'x', 'X', 'n'] then .error (.noKind kind typeName)
    else if s.precision ≠ none then .error .precisionOfWhole
    else if s.plainZero then .error .zeroOfWhole
    else if kind = 'c' then do s.fit (← s.charNumeral n)
    else s.fit (s.wholeNumeral kind n)

end Style

/-! ### Values -/

/-- What is found, written in the style that a text gives.  No style is asked for by no text. -/
def Found.styled (f : Found) (style : List Char) : Except Style.Refusal (List Char) :=
  if style = [] then .ok f.plain.toList
  else match f with
    | value (.text cs) => do (← Style.ofChars "str" (some 's') style).text (Text.printed cs).toList
    | value (.bool b) => do (← Style.ofChars "bool" (some 'd') style).whole "bool" b.toInt
    | value (.int n) => do (← Style.ofChars "int" (some 'd') style).whole "int" n
    | value (.real b) => do (← Style.ofChars "float" none style).real "float" b
    | f => .error (.noStyles f.typeName)

end Offside
