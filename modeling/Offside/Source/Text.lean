import Offside.Source

/-!
# Text as a source

A text in memory hands out its characters in order.  Closing it skips what is left.
-/

namespace Offside

/-- A text of which some characters may have been handed out. -/
structure TextSource where
  /-- The characters still to come. -/
  rest : List CodePoint
  /-- The name of the text. -/
  name : Option String := none
  deriving DecidableEq, Repr

namespace TextSource

/-- Hands out the first of the characters left. -/
def pull (s : TextSource) : Reply TextSource (Option CodePoint) :=
  match s.rest with
  | [] => ⟨.ok none, s, []⟩
  | c :: rest => ⟨.ok (some c), { s with rest := rest }, []⟩

instance : CharSource TextSource where
  pull := pull
  close s := ⟨.ok (), { s with rest := [] }, []⟩
  available s := s.rest.length
  name s := s.name
  remaining s := s.rest.length
  remaining_le s := by
    simp only [pull]
    split <;> simp_all
  remaining_lt s c h := by
    simp only [pull] at h ⊢
    split at h
    · simp at h
    · simp_all

end TextSource

end Offside
