import Offside.Source

/-!
# The analysis of indentation

The part of the analysis that does not depend on where the characters come from.  An `Engine`
knows the conventions of the text, the open levels, the escape regions and the place in the
input, and it holds a queue of what has been decided but not delivered.

What is delivered are **tokens**: the characters of the text, and between them the markers that
say where blocks open and close.  When the input ends while levels are open, their markers are
queued together with a last entry that stands for the end.

## Main definitions

* `Layout` — the marker characters, the newline and the whitespace.
* `Token`, `Role` — what is delivered.
* `Engine` — the state of the analysis.
* `Engine.arrive`, `Engine.observe` — a character has been read, and is shown to the rules.
* `Engine.settle` — what the leading whitespace of a line does.
* `Engine.flush`, `Engine.deliver` — the end of the input, and handing out a token.
* `Engine.potential` — a bound on the tokens that are decided.
-/

namespace Offside

/-! ### Conventions -/

/-- How blocks are written in the text that is read and in the one that is delivered. -/
structure Layout where
  /-- Delivered where a block opens. -/
  indentMark : CodePoint := '>'
  /-- Delivered where a block closes. -/
  dedentMark : CodePoint := '<'
  /-- Ends a line. -/
  newline : CodePoint := '\n'
  /-- Whether the whitespace at the start of a line is delivered after its markers. -/
  keepWhitespace : Bool := false
  /-- The characters that count as whitespace. -/
  whitespace : List CodePoint := [' ', '\t']
  deriving DecidableEq, Repr

namespace Layout

/-- Counts one more character as whitespace. -/
def addWhitespace (l : Layout) (c : CodePoint) : Layout :=
  { l with whitespace := l.whitespace.insert c }

/-- Counts a character as whitespace no longer. -/
def removeWhitespace (l : Layout) (c : CodePoint) : Layout :=
  { l with whitespace := l.whitespace.filter (· ≠ c) }

@[simp] theorem mem_whitespace_addWhitespace (l : Layout) (c d : CodePoint) :
    d ∈ (l.addWhitespace c).whitespace ↔ d = c ∨ d ∈ l.whitespace := by
  simp [addWhitespace]

@[simp] theorem mem_whitespace_removeWhitespace (l : Layout) (c d : CodePoint) :
    d ∈ (l.removeWhitespace c).whitespace ↔ d ∈ l.whitespace ∧ d ≠ c := by
  simp [removeWhitespace]

end Layout

/-! ### Tokens -/

/-- Why a character is delivered. -/
inductive Role where
  /-- It was read. -/
  | content
  /-- A block opens. -/
  | indent
  /-- A block closes. -/
  | dedent
  deriving DecidableEq, Repr

/-- A character that is delivered. -/
structure Token where
  /-- Why it is delivered. -/
  role : Role
  /-- The character itself. -/
  char : CodePoint
  deriving DecidableEq, Repr

/-- A character of the text. -/
def Token.content (c : CodePoint) : Token := ⟨.content, c⟩

@[simp] theorem Token.char_content (c : CodePoint) : (Token.content c).char = c := rfl

@[simp] theorem Token.role_content (c : CodePoint) : (Token.content c).role = .content := rfl

/-- The characters of a list of tokens. -/
def Token.text (tokens : List Token) : List CodePoint := tokens.map Token.char

/-! ### The state -/

/-- The state of the analysis. -/
structure Engine where
  /-- The conventions in force. -/
  layout : Layout := {}
  /-- The open levels. -/
  stack : Stack := {}
  /-- The escape rules. -/
  tracker : Tracker := {}
  /-- What is decided and not yet delivered; `none` stands for the end of the input. -/
  queue : List (Option Token) := []
  /-- Whether the next character to be read starts a line. -/
  lineStart : Bool := true
  /-- Whether the end of the input has been met. -/
  exhausted : Bool := false
  /-- The line of the last character read, or the next line if it was a newline. -/
  line : Nat := 1
  /-- How many characters of that line have been read. -/
  column : Nat := 0
  /-- How many indent markers have been queued. -/
  indents : Nat := 0
  /-- How many dedent markers have been queued. -/
  dedents : Nat := 0
  deriving DecidableEq, Repr

namespace Engine

/-- The number of open levels. -/
def depth (e : Engine) : Nat := e.stack.depth

/-! ### A character arrives -/

/-- A character has been read: the place in the input moves on. -/
def arrive (e : Engine) (c : CodePoint) : Engine :=
  if c = e.layout.newline then { e with line := e.line + 1, column := 0 }
  else { e with column := e.column + 1 }

/-- The end of the input has been met. -/
def finish (e : Engine) : Engine := { e with exhausted := true }

/-- Whether indentation means nothing at a character. -/
def escapes (e : Engine) (c : CodePoint) : Bool := e.tracker.escapes c

/-- A character is shown to the escape rules. -/
def observe (e : Engine) (c : CodePoint) : Engine := { e with tracker := e.tracker.observe c }

/-- What there is to report when a character is shown to the escape rules. -/
def crossing (e : Engine) (c : CodePoint) : List Notice := (e.tracker.crossing c).map Notice.escape

/-! ### The queue -/

/-- Queues one more entry. -/
def enqueue (e : Engine) (entry : Option Token) : Engine :=
  { e with queue := e.queue ++ [entry] }

/-- Takes the first entry off the queue. -/
def dequeue (e : Engine) : Option Token × Engine :=
  match e.queue with
  | [] => (none, e)
  | entry :: rest => (entry, { e with queue := rest })

/-! ### The leading whitespace of a line -/

/-- Queues markers and then the character they stand before.  The queue holds the whitespace
of the line, which stays between the two if it is to be kept. -/
def place (e : Engine) (marks : List Token) (c : CodePoint) : Engine :=
  let kept := if e.layout.keepWhitespace then e.queue else []
  { e with queue := marks.map some ++ kept ++ [some (.content c)] }

/-- The mark of an opening block. -/
def indentToken (e : Engine) : Token := ⟨.indent, e.layout.indentMark⟩

/-- The mark of a closing block. -/
def dedentToken (e : Engine) : Token := ⟨.dedent, e.layout.dedentMark⟩

/-- Opens the level of a run. -/
def opening (e : Engine) (run : List CodePoint) : Engine :=
  { e with
    stack := match Level.ofRun? run with
      | some l => e.stack.push l
      | none => e.stack
    indents := e.indents + 1 }

/-- Closes levels. -/
def closing (e : Engine) (n : Nat) : Engine :=
  { e with stack := e.stack.close n, dedents := e.dedents + n }

/-- Decides about a line that starts with the whitespace `run` and goes on with `c`. -/
def settle (e : Engine) (file : Option String) (run : List CodePoint) (c : CodePoint) :
    Except ReadError (Engine × List Notice) :=
  let r := e.stack.resolve run
  match r.change with
  | .same => .ok (e.place [] c, [])
  | .indent =>
    let opened := e.opening r.remainder
    .ok (opened.place [e.indentToken] c, [.indent e.line r.remainder opened.depth])
  | .dedent =>
    let n := r.dedents.toNat
    let closed := e.closing n
    .ok (closed.place (List.replicate n e.dedentToken) c, [.dedent e.line n closed.depth])
  | .malformed =>
    .error (.mismatch
      { line := e.line, column := e.column, run := run, depth := e.depth, matched := r.matched
        remainder := r.remainder, file := file })

/-! ### Delivery -/

/-- The input has ended.  If levels are open their marks are queued, and the first of them is
handed out. -/
def flush (e : Engine) : Option Token × Engine × List Notice :=
  if e.depth = 0 then (none, e, [])
  else
    let closed : Engine :=
      { e with
        stack := {}
        queue := e.queue ++ List.replicate e.depth (some e.dedentToken) ++ [none]
        dedents := e.dedents + e.depth
        lineStart := false }
    let (entry, rest) := closed.dequeue
    (entry, rest, [.flush e.depth])

/-- Hands out what has been taken off the queue or come straight from the source.  A line
starts after each newline that is handed out. -/
def deliver (e : Engine) : Option Token → Option Token × Engine × List Notice
  | none => e.flush
  | some t => (some t, { e with lineStart := t.char = e.layout.newline }, [])

/-! ### How much is decided -/

/-- A bound on the entries that can be taken off the queue before the next character is read:
those in it, and for the open levels a mark each and the end. -/
def potential (e : Engine) : Nat :=
  e.queue.length + e.depth + min e.depth 1

@[simp] theorem potential_arrive (e : Engine) (c : CodePoint) :
    (e.arrive c).potential = e.potential := by
  simp only [arrive]
  split <;> rfl

@[simp] theorem potential_finish (e : Engine) : e.finish.potential = e.potential := rfl

@[simp] theorem potential_observe (e : Engine) (c : CodePoint) :
    (e.observe c).potential = e.potential := rfl

@[simp] theorem potential_enqueue (e : Engine) (entry : Option Token) :
    (e.enqueue entry).potential = e.potential + 1 := by
  simp only [potential, enqueue, depth, List.length_append, List.length_cons, List.length_nil]
  omega

theorem potential_dequeue_le (e : Engine) : e.dequeue.2.potential ≤ e.potential := by
  simp only [dequeue]
  split
  · simp
  · simp_all [potential, depth]

theorem potential_dequeue_lt (e : Engine) (h : e.queue ≠ []) :
    e.dequeue.2.potential < e.potential := by
  simp only [dequeue]
  split
  · contradiction
  · simp_all [potential, depth]

theorem length_queue_place_le (e : Engine) (marks : List Token) (c : CodePoint) :
    (e.place marks c).queue.length ≤ marks.length + e.queue.length + 1 := by
  by_cases hkeep : e.layout.keepWhitespace = true
  · simp [place, hkeep, Nat.add_assoc]
  · -- the whitespace of the line is given up
    simp only [place, if_neg hkeep, List.length_append, List.length_map, List.length_cons,
      List.length_nil]
    omega

@[simp] theorem depth_place (e : Engine) (marks : List Token) (c : CodePoint) :
    (e.place marks c).depth = e.depth := rfl

@[simp] theorem queue_opening (e : Engine) (run : List CodePoint) :
    (e.opening run).queue = e.queue := rfl

@[simp] theorem queue_closing (e : Engine) (n : Nat) : (e.closing n).queue = e.queue := rfl

theorem depth_opening_le (e : Engine) (run : List CodePoint) :
    (e.opening run).depth ≤ e.depth + 1 := by
  simp only [opening, depth]
  split <;> simp

@[simp] theorem depth_closing (e : Engine) (n : Nat) : (e.closing n).depth = e.depth - n := by
  simp [closing, depth]

/-- Settling a line adds at most a mark, a level and the character itself. -/
theorem potential_settle_le {e e' : Engine} {file : Option String} {run : List CodePoint}
    {c : CodePoint} {notices : List Notice} (h : e.settle file run c = .ok (e', notices)) :
    e'.potential ≤ e.potential + 4 := by
  simp only [settle] at h
  split at h
  · obtain ⟨rfl, rfl⟩ : _ ∧ _ := by simpa using h
    have := length_queue_place_le e [] c
    simp only [potential, depth_place, List.length_nil] at this ⊢
    omega
  · obtain ⟨rfl, rfl⟩ : _ ∧ _ := by simpa using h
    have h₁ := length_queue_place_le (e.opening (e.stack.resolve run).remainder) [e.indentToken] c
    have h₂ := depth_opening_le e (e.stack.resolve run).remainder
    simp only [potential, depth_place, queue_opening, List.length_cons, List.length_nil] at h₁ ⊢
    omega
  · obtain ⟨rfl, rfl⟩ : _ ∧ _ := by simpa using h
    have hn := e.stack.dedents_resolve_le run
    generalize (e.stack.resolve run).dedents.toNat = n at hn ⊢
    have h₁ := length_queue_place_le (e.closing n) (List.replicate n e.dedentToken) c
    have h₂ : n ≤ e.depth := hn
    simp only [potential, depth_place, depth_closing, queue_closing, List.length_replicate] at h₁ ⊢
    omega
  · simp at h

/-- Flushing decides nothing that was not due. -/
theorem potential_flush_le (e : Engine) : e.flush.2.1.potential ≤ e.potential := by
  simp only [flush]
  split
  · simp
  · rename_i h
    generalize hc : ({ e with
        stack := {}
        queue := e.queue ++ List.replicate e.depth (some e.dedentToken) ++ [none]
        dedents := e.dedents + e.depth
        lineStart := false } : Engine) = closed
    have hp : closed.potential = e.potential := by
      subst hc
      simp only [potential, depth, Stack.depth_empty, List.length_append, List.length_replicate,
        List.length_cons, List.length_nil] at h ⊢
      omega
    exact hp ▸ potential_dequeue_le closed

/-- What flushing hands out was due. -/
theorem potential_flush_lt (e : Engine) (t : Token) (ht : e.flush.1 = some t) :
    e.flush.2.1.potential < e.potential := by
  simp only [flush] at ht ⊢
  split
  · rename_i h
    simp [h] at ht
  · rename_i h
    generalize hc : ({ e with
        stack := {}
        queue := e.queue ++ List.replicate e.depth (some e.dedentToken) ++ [none]
        dedents := e.dedents + e.depth
        lineStart := false } : Engine) = closed
    have hp : closed.potential = e.potential := by
      subst hc
      simp only [potential, depth, Stack.depth_empty, List.length_append, List.length_replicate,
        List.length_cons, List.length_nil] at h ⊢
      omega
    have hq : closed.queue ≠ [] := by
      subst hc
      simp
    exact hp ▸ potential_dequeue_lt closed hq

theorem potential_deliver_le (e : Engine) (entry : Option Token) :
    (e.deliver entry).2.1.potential ≤ e.potential := by
  cases entry with
  | none => exact potential_flush_le e
  | some t => exact Nat.le_refl _

end Engine

end Offside
