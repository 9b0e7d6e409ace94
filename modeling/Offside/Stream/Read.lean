import Offside.Stream

/-!
# Reading a stream

A stream is a source itself, since it hands out characters one at a time and only finitely many
of them, so streams can be put one over the other.

Reading several tokens stops at the end of the input or at the first error.  What was delivered
before an error is lost to the caller, but not to the description: `drain` and `collect` return
the delivered tokens next to the outcome.

## Main definitions

* `Stream.ofSource` — a stream over a source that has been opened.
* `Stream.drain`, `Stream.collect` — the tokens up to the end, and up to a number of them.
* `Stream.read` — their text.
* `Stream.close`, `Stream.readAndClose` — closing a stream, and reading from one that is closed
  afterwards whatever happens.
-/

namespace Offside

namespace Stream

variable {σ : Type} [CharSource σ]

/-! ### Opening and closing -/

/-- A stream over a source, under a name of its own or under the source's. -/
def ofSource (source : σ) (name : Option String) : Stream σ :=
  { source := source, name := name <|> CharSource.name source }

/-- Closes the stream and its source, once.  The stream is closed even if the source fails to
close. -/
def close (s : Stream σ) : Reply (Stream σ) Unit :=
  if s.closed then ⟨.ok (), s, []⟩
  else
    let reply := CharSource.close s.source
    ⟨reply.outcome, { s with closed := true, source := reply.next },
      .closing s.name :: reply.notices⟩

/-- Closes the source and leaves the stream open. -/
def closeSource (s : Stream σ) : Reply (Stream σ) Unit :=
  let reply := CharSource.close s.source
  ⟨reply.outcome, { s with source := reply.next }, reply.notices⟩

/-- What is at hand: the queue, or if it is empty what the source has at hand. -/
def available (s : Stream σ) : Int :=
  if s.engine.queue = [] then CharSource.available s.source else s.engine.queue.length

/-! ### A stream is a source -/

/-- The character of the next token. -/
def nextChar (s : Stream σ) : Reply (Stream σ) (Option CodePoint) := s.next.map (·.map Token.char)

instance : CharSource (Stream σ) where
  pull := nextChar
  close := close
  available := available
  name s := s.name
  remaining := remaining
  remaining_le s := s.remaining_next_le
  remaining_lt s c h := by
    simp only [nextChar, Reply.outcome_map, Except.map] at h
    split at h
    · simp at h
    · rename_i token ho
      obtain ⟨t, rfl, -⟩ : ∃ t, token = some t ∧ _ := by simpa using h
      exact s.remaining_next_lt t ho

/-! ### Reading many tokens -/

/-- The tokens up to the end of the input or to the first error. -/
def drain (s : Stream σ) : List Token × Reply (Stream σ) Unit :=
  match _h : s.next with
  | ⟨.error e, s', notices⟩ => ([], ⟨.error e, s', notices⟩)
  | ⟨.ok none, s', notices⟩ => ([], ⟨.ok (), s', notices⟩)
  | ⟨.ok (some t), s', notices⟩ =>
    let (tokens, reply) := s'.drain
    (t :: tokens, reply.after notices)
termination_by s.remaining
decreasing_by
  have hlt := s.remaining_next_lt t (by rw [_h])
  rw [_h] at hlt
  exact hlt

/-- At most `n` tokens, up to the end of the input or to the first error. -/
def collect (s : Stream σ) : Nat → List Token × Reply (Stream σ) Unit
  | 0 => ([], ⟨.ok (), s, []⟩)
  | n + 1 =>
    match s.next with
    | ⟨.error e, s', notices⟩ => ([], ⟨.error e, s', notices⟩)
    | ⟨.ok none, s', notices⟩ => ([], ⟨.ok (), s', notices⟩)
    | ⟨.ok (some t), s', notices⟩ =>
      let (tokens, reply) := s'.collect n
      (t :: tokens, reply.after notices)

/-- The text of at most `size` tokens, or of all of them if `size` is negative. -/
def read (s : Stream σ) (size : Int) : Reply (Stream σ) (List CodePoint) :=
  let (tokens, reply) := if size < 0 then s.drain else s.collect size.toNat
  reply.map fun _ => Token.text tokens

/-- The number of tokens that a value asks for; a number below zero asks for all, and one that
is not defined for none. -/
def sizeOf? (v : Value) : Option Int :=
  match v, v.floor?, v.ceil? with
  | .real .undefined, _, _ => some 0
  | _, some least, some most => some (if least < 0 then -1 else most)
  | _, _, _ => none

/-- The text of as many tokens as a value asks for. -/
def readValue (s : Stream σ) (size : Value) : Reply (Stream σ) (List CodePoint) :=
  match sizeOf? size with
  | some n => s.read n
  | none => ⟨.error (.notSize size.typeName), s, []⟩

/-- A reply after which the stream is closed, whether it is an error or not.  If closing fails,
that is the error. -/
def closing {α : Type} (reply : Reply (Stream σ) α) : Reply (Stream σ) α :=
  let closed := reply.next.close
  ⟨closed.outcome >>= fun _ => reply.outcome, closed.next, reply.notices ++ closed.notices⟩

/-- Reads and closes the stream, whether the reading succeeds or not. -/
def readAndClose (s : Stream σ) (size : Int) : Reply (Stream σ) (List CodePoint) :=
  closing (s.read size)

/-- Only the source can fail to close. -/
theorem outcome_close (s : Stream σ) :
    s.close.outcome = if s.closed then .ok () else (CharSource.close s.source).outcome := by
  rw [close]
  split <;> rfl

/-- If closing fails, that is the outcome, whatever was read. -/
theorem outcome_readAndClose_of_error {s : Stream σ} {size : Int} {e : ReadError}
    (h : (s.read size).next.close.outcome = .error e) :
    (s.readAndClose size).outcome = .error e := by
  rw [readAndClose, closing, h]
  rfl

/-- If closing does not fail, the outcome is that of reading. -/
theorem outcome_readAndClose_of_ok {s : Stream σ} {size : Int}
    (h : (s.read size).next.close.outcome = .ok ()) :
    (s.readAndClose size).outcome = (s.read size).outcome := by
  rw [readAndClose, closing, h]
  rfl

end Stream

end Offside
