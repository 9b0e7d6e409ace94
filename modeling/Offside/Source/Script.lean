import Offside.Source

/-!
# Scripted sources

The most general finite source: a list of answers, given one per request.  An answer may be a
character, an error, or an early end of the input after which more follows.  When the list is
used up every request is answered by the end.  Closing is counted, and it has an answer of its
own.
-/

namespace Offside

/-- A source that answers from a list. -/
structure ScriptSource where
  /-- The answers still to be given. -/
  answers : List (Except ReadError (Option CodePoint))
  /-- What it claims to have at hand. -/
  claimed : Int := 0
  /-- Its name. -/
  name : Option String := none
  /-- How often it was closed. -/
  closings : Nat := 0
  /-- How closing is answered. -/
  closing : Except ReadError Unit := .ok ()

namespace ScriptSource

/-- Gives the next answer. -/
def pull (s : ScriptSource) : Reply ScriptSource (Option CodePoint) :=
  match s.answers with
  | [] => ⟨.ok none, s, []⟩
  | answer :: rest => ⟨answer, { s with answers := rest }, []⟩

instance : CharSource ScriptSource where
  pull := pull
  close s := ⟨s.closing, { s with closings := s.closings + 1 }, []⟩
  available s := s.claimed
  name s := s.name
  remaining s := s.answers.length
  remaining_le s := by
    simp only [pull]
    split <;> simp_all
  remaining_lt s c h := by
    simp only [pull] at h ⊢
    split at h
    · simp at h
    · simp_all

end ScriptSource

end Offside
