import Offside.Settings
import Offside.Text.Utf8

/-!
# The report on refused settings

Refused settings are reported in one text: a headline with the number of refusals, and for each
its field on a line of its own and what is wrong on the next, together with what was given.  A
value whose form is longer than fifty bytes is shortened in the middle.

## Main definitions

* `Text.shorten` — the first and the last bytes of a long text.
* `Settings.report` — the report.
-/

namespace Offside

namespace Text

/-- The longest start of a text that has at most `size` bytes. -/
def takeBytes (size : Nat) : List Char → List Char
  | [] => []
  | c :: rest => if c.utf8Size ≤ size then c :: takeBytes (size - c.utf8Size) rest else []

/-- A text of more than fifty bytes is cut down to its first twenty-five and its last
twenty-four, or fewer where a character would be cut. -/
def shorten (text : String) : String :=
  if text.utf8ByteSize ≤ 50 then text
  else
    let chars := text.toList
    String.ofList (takeBytes 25 chars) ++ "..." ++
      String.ofList (takeBytes 24 chars.reverse).reverse

end Text

/-- A refusal as a line of the report. -/
def FieldError.line (e : FieldError) : String :=
  let shown := Text.shorten e.given.shown
  "  " ++ e.cause.message ++ " [type=" ++ e.cause.kind ++ ", input_value=" ++ shown ++
    ", input_type=" ++ e.given.typeName ++ "]"

/-- The report on a list of refusals. -/
def Settings.report (errors : List FieldError) : String :=
  let count := errors.length
  let plural := if count = 1 then "" else "s"
  let headline := s!"{count} validation error{plural} for AppSettings"
  "\n".intercalate (headline :: errors.flatMap fun e => [e.name, e.line])

end Offside
