import Offside.Text.CodePoint

/-!
# Indentation levels

A block is opened by a line whose leading whitespace extends that of the enclosing block.  Its
**level** is what the line added, exactly as it was written: widths play no part, so a tab is
worth no number of spaces.  The open levels form a **stack**, and the full indentation of a
block is the concatenation of the levels down to it.

A new line's leading run is matched against the stack from the outermost level inwards.  The
line continues the innermost block, opens a new one, closes some, or is malformed, according to
how many levels the run starts with and what is left of it then.

## Main definitions

* `Level` — a non-empty run of whitespace.
* `Stack` — the open levels, outermost first.
* `Resolution`, `Change` — the outcome of matching a run, and what it means.
* `Stack.resolve` — matching a run against the stack.
-/

namespace Offside

/-! ### Levels -/

/-- The whitespace that one block adds to the indentation of the block around it. -/
structure Level where
  /-- The whitespace as written. -/
  run : List CodePoint
  /-- A block is opened by at least one character. -/
  run_ne_nil : run ≠ []
  deriving DecidableEq, Repr

namespace Level

/-- The level of a run, if it is not empty. -/
def ofRun? (run : List CodePoint) : Option Level :=
  if h : run = [] then none else some ⟨run, h⟩

@[simp] theorem ofRun?_nil : ofRun? [] = none := rfl

theorem ofRun?_of_ne {run : List CodePoint} (h : run ≠ []) : ofRun? run = some ⟨run, h⟩ := by
  simp [ofRun?, h]

/-- The number of characters a level adds. -/
def length (l : Level) : Nat := l.run.length

/-- A run starts with the whitespace of the level, character for character. -/
def starts (l : Level) (run : List CodePoint) : Bool := l.run.isPrefixOf run

end Level

/-! ### The outcome of matching a run -/

/-- How a line stands to the open blocks. -/
inductive Change where
  /-- It continues the innermost block. -/
  | same
  /-- It opens a block. -/
  | indent
  /-- It closes at least one block. -/
  | dedent
  /-- It belongs to no block. -/
  | malformed
  deriving DecidableEq, Repr

/-- The outcome of matching a run against a stack. -/
structure Resolution where
  /-- How many levels the run starts with. -/
  matched : Int
  /-- What is left of the run after them. -/
  remainder : List CodePoint
  /-- How many levels were open. -/
  depth : Int
  deriving DecidableEq, Repr

namespace Resolution

/-- If every level was matched, a remainder opens a block; if not, a remainder fits nowhere. -/
def change (r : Resolution) : Change :=
  if r.matched = r.depth then
    if r.remainder = [] then .same else .indent
  else if r.remainder = [] then .dedent else .malformed

/-- The number of levels that were not matched. -/
def dedents (r : Resolution) : Int := r.depth - r.matched

end Resolution

/-! ### The stack -/

/-- The open levels, outermost first. -/
structure Stack where
  /-- The levels. -/
  levels : List Level := []
  deriving DecidableEq, Repr

/-- What a stack refuses. -/
inductive StackError where
  /-- An empty run opens no level. -/
  | emptyLevel
  /-- There is no level to close. -/
  | nothingOpen
  deriving DecidableEq, Repr

/-- The refusal in words. -/
def StackError.message : StackError → String
  | emptyLevel => "IndentLevel requires a non-empty indentation"
  | nothingOpen => "pop from empty list"

namespace Stack

/-- The number of open levels. -/
def depth (s : Stack) : Nat := s.levels.length

/-- The whole indentation of the innermost block. -/
def indentation (s : Stack) : List CodePoint := s.levels.flatMap Level.run

/-- Opens a level inside the others. -/
def push (s : Stack) (l : Level) : Stack := ⟨s.levels ++ [l]⟩

/-- Opens the level of a run, which must not be empty. -/
def pushRun (s : Stack) (run : List CodePoint) : Except StackError (Level × Stack) :=
  match Level.ofRun? run with
  | some l => .ok (l, s.push l)
  | none => .error .emptyLevel

/-- Closes the innermost level. -/
def pop (s : Stack) : Except StackError (Level × Stack) :=
  match s.levels.getLast? with
  | some l => .ok (l, ⟨s.levels.dropLast⟩)
  | none => .error .nothingOpen

/-- Closes the innermost `n` levels. -/
def close (s : Stack) (n : Nat) : Stack := ⟨s.levels.take (s.depth - n)⟩

/-- Takes the levels off the front of a run for as long as it starts with the next one: how
many there were, and what is left. -/
def strip : List Level → List CodePoint → Nat × List CodePoint
  | [], run => (0, run)
  | l :: rest, run =>
    if l.starts run then
      let (matched, remainder) := strip rest (run.drop l.length)
      (matched + 1, remainder)
    else (0, run)

/-- Matches a run against the stack. -/
def resolve (s : Stack) (run : List CodePoint) : Resolution :=
  let (matched, remainder) := strip s.levels run
  ⟨matched, remainder, s.depth⟩

/-! ### Depths -/

@[simp] theorem depth_empty : depth {} = 0 := rfl

@[simp] theorem depth_push (s : Stack) (l : Level) : (s.push l).depth = s.depth + 1 := by
  simp [depth, push]

@[simp] theorem depth_close (s : Stack) (n : Nat) : (s.close n).depth = s.depth - n := by
  simp [depth, close]

@[simp] theorem depth_resolve (s : Stack) (run : List CodePoint) :
    (s.resolve run).depth = s.depth := rfl

theorem strip_fst_le (levels : List Level) (run : List CodePoint) :
    (strip levels run).1 ≤ levels.length := by
  induction levels generalizing run with
  | nil => simp [strip]
  | cons l rest ih =>
    simp only [strip]
    split
    · simpa using ih _
    · simp

theorem matched_resolve_nonneg (s : Stack) (run : List CodePoint) : 0 ≤ (s.resolve run).matched :=
  Int.natCast_nonneg _

/-- No more levels are to be closed than are open. -/
theorem dedents_resolve_le (s : Stack) (run : List CodePoint) :
    (s.resolve run).dedents.toNat ≤ s.depth := by
  have := s.matched_resolve_nonneg run
  simp only [Resolution.dedents, depth_resolve]
  omega

end Stack

end Offside
