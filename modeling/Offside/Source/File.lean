import Offside.Source

/-!
# Open files as sources

An open file hands out its contents character by character until it is closed; afterwards every
request is an error.  Contents that cannot be read further end in a fault, which is met after
the last readable character.  A binary file is no source of characters: it opens like one, and
each request fails because of what the file answers.
-/

namespace Offside

/-! ### Text files -/

/-- A text file that is open for reading, or was. -/
structure FileSource where
  /-- The characters still to come. -/
  rest : List CodePoint
  /-- What is met after them instead of the end of the file. -/
  fault : Option ReadError := none
  /-- Nothing is read from a closed file. -/
  closed : Bool := false
  /-- The name of the file. -/
  name : Option String := none
  deriving DecidableEq, Repr

namespace FileSource

/-- Hands out the next character of an open file. -/
def pull (s : FileSource) : Reply FileSource (Option CodePoint) :=
  if s.closed then ⟨.error .closedFile, s, []⟩
  else match s.rest with
    | [] => match s.fault with
      | none => ⟨.ok none, s, []⟩
      | some e => ⟨.error e, s, []⟩
    | c :: rest => ⟨.ok (some c), { s with rest := rest }, []⟩

instance : CharSource FileSource where
  pull := pull
  close s := ⟨.ok (), { s with closed := true }, []⟩
  available _ := 0
  name s := s.name
  remaining s := s.rest.length
  remaining_le s := by
    simp only [pull]
    split
    · simp
    · split
      · split <;> simp
      · simp_all
  remaining_lt s c h := by
    simp only [pull] at h ⊢
    split at h
    · simp at h
    · split at h
      · split at h <;> simp at h
      · simp_all

end FileSource

/-! ### Binary files -/

/-- A binary file in the place of a text file. -/
structure BinarySource where
  /-- How the file is shown in messages. -/
  shown : String
  /-- Nothing is read from a closed file. -/
  closed : Bool := false
  /-- The name of the file. -/
  name : Option String := none
  deriving DecidableEq, Repr

namespace BinarySource

/-- Fails at each request, the end of the file included. -/
def pull (s : BinarySource) : Reply BinarySource (Option CodePoint) :=
  if s.closed then ⟨.error .closedBinaryFile, s, []⟩ else ⟨.error (.bytesRead s.shown), s, []⟩

instance : CharSource BinarySource where
  pull := pull
  close s := ⟨.ok (), { s with closed := true }, []⟩
  available _ := 0
  name s := s.name
  remaining _ := 0
  remaining_le _ := Nat.le_refl 0
  remaining_lt s c h := by
    simp only [pull] at h
    split at h <;> simp at h

end BinarySource

end Offside
