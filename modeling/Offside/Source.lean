import Offside.Notice
import Offside.Text.Utf8

/-!
# Sources of characters

A **source** hands out characters one at a time.  Each request is answered by a character, by
the end of the input, or by an error, and an error is not an end: the next request may be
answered again.  A source may also report an early end and go on afterwards.

A source that is not read any more is closed.  That may fail as well, and then the failure counts
for more than what was read.

Every source is finite.  The class says so by a measure that no request raises and that each
character lowers, so that whoever reads until the end is done after finitely many requests.

## Main definitions

* `Mismatch`, `ReadError` — why a request fails.
* `Reply` — an answer, the source after it, and the notices given on the way.
* `CharSource` — the class of sources.
-/

namespace Offside

/-! ### Errors -/

/-- A line whose leading whitespace fits no open block. -/
structure Mismatch where
  /-- The line, counted from one. -/
  line : Nat
  /-- The column of the first character after the whitespace, counted from one. -/
  column : Nat
  /-- The whitespace. -/
  run : List CodePoint
  /-- How many levels were open before the line. -/
  depth : Nat
  /-- How many of them the whitespace starts with. -/
  matched : Int
  /-- What is left of the whitespace after them. -/
  remainder : List CodePoint
  /-- The name of the stream. -/
  file : Option String
  deriving DecidableEq, Repr

/-- The part of a path after its last slash. -/
def baseName (path : String) : String :=
  String.ofList (path.toList.reverse.takeWhile (· ≠ '/')).reverse

namespace Mismatch

/-- What is wrong, without the place. -/
def reason (m : Mismatch) : String :=
  let left := Text.quoted m.remainder
  "unindent does not match any outer indentation level " ++
    s!"(depth {m.depth}, {m.matched} matched, {left} left over)"

/-- What is wrong, and where. -/
def message (m : Mismatch) : String :=
  match m.file with
  | none => m.reason ++ s!" (line {m.line})"
  | some path =>
    let base := baseName path
    m.reason ++ s!" ({base}, line {m.line})"

end Mismatch

/-- Why a request for a character failed. -/
inductive ReadError where
  /-- The producer of the characters failed in its own way. -/
  | raised (kind message : String)
  /-- The text file was closed before. -/
  | closedFile
  /-- The binary file was closed before. -/
  | closedBinaryFile
  /-- The file answered with bytes, not with text. -/
  | bytesRead (file : String)
  /-- The bytes of the file are no text from here on. -/
  | undecodable (fault : Text.Utf8.Fault)
  /-- The stream was closed before. -/
  | closedStream
  /-- What was to say how much to read is a value of a type that has no order. -/
  | notSize (typeName : String)
  /-- A line fits no open block. -/
  | mismatch (m : Mismatch)
  deriving DecidableEq, Repr

/-- A read error in words. -/
def ReadError.message : ReadError → String
  | raised _ message => message
  | closedFile => "I/O operation on closed file"
  | closedBinaryFile => "I/O operation on closed file."
  | bytesRead file => "StreamSource needs a text stream, " ++ file ++ " returned bytes"
  | undecodable fault => fault.message
  | closedStream => "I/O operation on closed stream"
  | notSize typeName => s!"'<' not supported between instances of '{typeName}' and 'int'"
  | mismatch m => m.message

/-! ### Replies -/

/-- The answer to a request, what is left to be asked next, and the notices given meanwhile. -/
structure Reply (σ α : Type) where
  /-- The answer. -/
  outcome : Except ReadError α
  /-- The state after the request. -/
  next : σ
  /-- What was reported, in order. -/
  notices : List Notice := []

namespace Reply

variable {σ τ α β : Type}

/-- The reply with notices that were given before it. -/
def after (earlier : List Notice) (r : Reply σ α) : Reply σ α :=
  { r with notices := earlier ++ r.notices }

/-- The reply with its answer changed. -/
def map (f : α → β) (r : Reply σ α) : Reply σ β :=
  { outcome := r.outcome.map f, next := r.next, notices := r.notices }

@[simp] theorem outcome_after (earlier : List Notice) (r : Reply σ α) :
    (r.after earlier).outcome = r.outcome := rfl

@[simp] theorem next_after (earlier : List Notice) (r : Reply σ α) :
    (r.after earlier).next = r.next := rfl

@[simp] theorem notices_after (earlier : List Notice) (r : Reply σ α) :
    (r.after earlier).notices = earlier ++ r.notices := rfl

@[simp] theorem next_map (f : α → β) (r : Reply σ α) : (r.map f).next = r.next := rfl

@[simp] theorem outcome_map (f : α → β) (r : Reply σ α) :
    (r.map f).outcome = r.outcome.map f := rfl

@[simp] theorem notices_map (f : α → β) (r : Reply σ α) : (r.map f).notices = r.notices := rfl

end Reply

/-! ### Sources -/

/-- A finite source of characters; `none` is the end of the input. -/
class CharSource (σ : Type) where
  /-- Asks for the next character. -/
  pull : σ → Reply σ (Option CodePoint)
  /-- Gives the source up, which may fail. -/
  close : σ → Reply σ Unit
  /-- How many characters are at hand, as far as the source can tell. -/
  available : σ → Int
  /-- The name of the source, for messages. -/
  name : σ → Option String
  /-- A bound on the characters still to come. -/
  remaining : σ → Nat
  /-- No request raises the bound. -/
  remaining_le : ∀ s, remaining (pull s).next ≤ remaining s
  /-- Each character lowers it. -/
  remaining_lt : ∀ s c, (pull s).outcome = .ok (some c) → remaining (pull s).next < remaining s

end Offside
