import Offside.Text.CodePoint

/-!
# Lists of pairs

Escape pairs are written one after the other, with a comma between two of them where one is
wanted.  A pair may itself contain a comma, so the text is not split at commas: two characters
are taken at a time, and a comma right after them is skipped.

## Main definitions

* `Pairs.split` — the pieces of a text, all of two characters but perhaps the last.
* `Pairs.join` — pieces with commas between them.
-/

namespace Offside.Pairs

/-- What is skipped between two pairs. -/
@[match_pattern] abbrev comma : CodePoint := .char ','

/-- Takes two characters at a time and skips a comma after them. -/
def split : List CodePoint → List (List CodePoint)
  | [] => []
  | [a] => [[a]]
  | a :: b :: comma :: rest => [a, b] :: split rest
  | a :: b :: rest => [a, b] :: split rest

/-- Writes pieces one after the other with commas between them. -/
def join (pieces : List (List CodePoint)) : List CodePoint := [comma].intercalate pieces

/-- The two characters of a piece. -/
def pair? : List CodePoint → Option (CodePoint × CodePoint)
  | [a, b] => some (a, b)
  | _ => none

/-- The pairs that a text consists of, if every piece has two characters. -/
def parse (text : List CodePoint) : List (CodePoint × CodePoint) := (split text).filterMap pair?

@[simp] theorem split_nil : split [] = [] := rfl

@[simp] theorem split_singleton (a : CodePoint) : split [a] = [[a]] := rfl

theorem split_pair_comma (a b : CodePoint) (rest : List CodePoint) :
    split (a :: b :: comma :: rest) = [a, b] :: split rest := by
  rw [split]

/-- No piece is empty, and none is longer than a pair. -/
theorem length_mem_split {text piece : List CodePoint} (h : piece ∈ split text) :
    piece.length = 1 ∨ piece.length = 2 := by
  fun_induction split text with
  | case1 => simp at h
  | case2 a => simp_all
  | case3 a b rest ih =>
    rcases List.mem_cons.1 h with rfl | h
    · exact .inr rfl
    · exact ih h
  | case4 a b rest _ ih =>
    rcases List.mem_cons.1 h with rfl | h
    · exact .inr rfl
    · exact ih h

end Offside.Pairs
