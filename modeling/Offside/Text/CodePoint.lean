/-!
# Code points

A text is a sequence of code points.  Nearly all code points are characters.  Those that are not,
the surrogates, belong to no text that is read from a file, but a text from elsewhere may hold
them: a byte of the command line that is part of no character becomes one.  They stand in a text
like any other code point, and only when the text is to be written is there no way to do so.

## Main definitions

* `CodePoint` — a character or a surrogate.
* `String.codePoints` — the text of a string.
* `CodePoint.string?` — the string that a text is, if all of it is characters.
-/

namespace Offside

/-- A code point. -/
inductive CodePoint where
  /-- A character. -/
  | char (c : Char)
  /-- One of the surrogates, which are counted from the first. -/
  | surrogate (n : Fin 0x800)
  deriving DecidableEq, Repr, Inhabited

namespace CodePoint

instance : Coe Char CodePoint := ⟨char⟩

/-- The number of a code point. -/
def toNat : CodePoint → Nat
  | char c => c.toNat
  | surrogate n => 0xD800 + n

/-- The character that a code point is. -/
def char? : CodePoint → Option Char
  | char c => some c
  | surrogate _ => none

/-- The string that a text is. -/
def string? (text : List CodePoint) : Option String := (text.mapM char?).map String.ofList

@[simp] theorem char?_char (c : Char) : (char c).char? = some c := rfl

end CodePoint

end Offside

/-- The text of a string. -/
def String.codePoints (s : String) : List Offside.CodePoint := s.toList.map Offside.CodePoint.char

namespace Offside

instance : Coe String (List CodePoint) := ⟨String.codePoints⟩

@[simp] theorem CodePoint.string?_codePoints (s : String) : string? s.codePoints = some s := by
  have hchars : (s.toList.map char).mapM char? = some s.toList := by
    induction s.toList with
    | nil => rfl
    | cons c rest ih => simp [ih]
  rw [string?, String.codePoints, hchars, Option.map_some, String.ofList_toList]

end Offside
