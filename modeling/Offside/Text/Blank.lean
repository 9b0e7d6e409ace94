import Offside.Text.Ranges

/-!
# Blank characters

The characters that show as empty space: the Unicode white space of every script, together with
the four information separators of ASCII.

## Main definitions

* `isBlank` — the class.
* `trimEnd` — a text without the blanks at its end.
-/

namespace Offside.Text

/-- The blank characters as inclusive ranges of code points, in increasing order. -/
def blankRanges : List (Nat × Nat) :=
  [(0x9, 0xD), (0x1C, 0x20), (0x85, 0x85), (0xA0, 0xA0), (0x1680, 0x1680), (0x2000, 0x200A),
    (0x2028, 0x2029), (0x202F, 0x202F), (0x205F, 0x205F), (0x3000, 0x3000)]

/-- A blank character lies in one of the ranges. -/
def isBlank (c : Char) : Bool := inRanges blankRanges c

/-- A text without the blanks at its end. -/
def trimEnd (text : String) : String :=
  String.ofList (text.toList.reverse.dropWhile isBlank).reverse

example : trimEnd "a b \n\u3000" = "a b" := by decide +kernel

end Offside.Text
