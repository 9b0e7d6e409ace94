import Offside.Text.CodePoint
import Offside.Text.Printable

/-!
# Quoted text

The form in which a piece of text is shown inside a message: between quotes, on one line, with
every character that could be misread spelled out.

* The quote is `'`, or `"` if the text holds a `'` and no `"`.
* The quote in use and the backslash are written after a backslash; line feed, carriage return
  and tab are `\n`, `\r` and `\t`.
* Any other code point with no printed form is `\x`, `\u` or `\U` and two, four or eight
  hexadecimal digits, whichever is the shortest that holds it.  Surrogates have no printed form.

## Main definitions

* `quoteMark` — the quote a text is written between.
* `spell` — one character of a quoted text.
* `quoted` — the whole form.
* `printed` — a text outside quotes, with only the surrogates spelled out.
* `spellBeyondAscii` — a text with only the characters beyond ASCII spelled out.
-/

namespace Offside.Text

/-! ### Spelling one character -/

/-- The lowercase hexadecimal digits of `n`, filled up with zeros to `width` digits. -/
def hexDigits (width n : Nat) : List Char :=
  let digits := Nat.toDigits 16 n
  List.replicate (width - digits.length) '0' ++ digits

/-- A code point written out in hexadecimal, in the shortest of the three widths. -/
def spellCodePoint (n : Nat) : List Char :=
  if n < 0x100 then '\\' :: 'x' :: hexDigits 2 n
  else if n < 0x10000 then '\\' :: 'u' :: hexDigits 4 n
  else '\\' :: 'U' :: hexDigits 8 n

/-- One code point of a text quoted with `mark`. -/
def spell (mark : Char) : CodePoint → List Char
  | .surrogate n => spellCodePoint (CodePoint.surrogate n).toNat
  | .char c =>
    if c = mark ∨ c = '\\' then ['\\', c]
    else if c = '\n' then ['\\', 'n']
    else if c = '\r' then ['\\', 'r']
    else if c = '\t' then ['\\', 't']
    else if isPrintable c then [c]
    else spellCodePoint c.toNat

/-! ### The whole text -/

/-- The quote a text is written between: the single one, unless only that one occurs in it. -/
def quoteMark (text : List CodePoint) : Char :=
  if ('\'' : CodePoint) ∈ text ∧ ('"' : CodePoint) ∉ text then '"' else '\''

/-- A text between quotes, on one line. -/
def quoted (text : List CodePoint) : String :=
  let mark := quoteMark text
  String.ofList (mark :: text.flatMap (spell mark) ++ [mark])

/-- A text as it is printed: surrogates cannot be, and are spelled out. -/
def printed (text : List CodePoint) : String :=
  String.ofList (text.flatMap fun
    | .char c => [c]
    | .surrogate n => spellCodePoint (CodePoint.surrogate n).toNat)

/-- A text with the characters beyond ASCII spelled out. -/
def spellBeyondAscii (text : List Char) : List Char :=
  text.flatMap fun c => if c.toNat < 0x80 then [c] else spellCodePoint c.toNat

example : quoted "a b".codePoints = "'a b'" := by decide +kernel
example : quoted "it's".codePoints = "\"it's\"" := by decide +kernel
example : quoted [.surrogate 0x480] = "'\\udc80'" := by decide +kernel
example : quoted "\t\x00\u2028".codePoints = "'\\t\\x00\\u2028'" := by decide +kernel

end Offside.Text
