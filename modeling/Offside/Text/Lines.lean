/-!
# Line ends

A text may end its lines with a line feed, a carriage return, or both in a row.  Read as a text
file it has line feeds only.
-/

namespace Offside.Text

/-- A text with a line feed for each line end. -/
def unifyLineEnds : List Char → List Char
  | [] => []
  | '\r' :: '\n' :: rest => '\n' :: unifyLineEnds rest
  | c :: rest => (if c = '\r' then '\n' else c) :: unifyLineEnds rest

@[simp] theorem unifyLineEnds_nil : unifyLineEnds [] = [] := rfl

end Offside.Text
