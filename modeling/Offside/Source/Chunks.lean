import Offside.Source

/-!
# Chunks of text as a source

A producer delivers text in chunks of any length, the empty one included, and their characters
are handed out one by one.  The producer is asked for a chunk only when none of the last one is
left.  It may fail instead of delivering, and is finished then; once it has been found finished
it is not asked again.

## Main definitions

* `Producer` — what delivers the chunks.
* `ChunkSource` — a producer together with the chunk in hand.
-/

namespace Offside

/-- What a producer does when it is asked. -/
inductive Chunk where
  /-- It delivers a piece of text. -/
  | text (cs : List CodePoint)
  /-- It fails. -/
  | fail (e : ReadError)
  deriving DecidableEq, Repr

/-- The number of characters in a chunk. -/
def Chunk.size : Chunk → Nat
  | text cs => cs.length
  | fail _ => 0

/-- What delivers the chunks. -/
structure Producer where
  /-- The deliveries still to come. -/
  chunks : List Chunk
  /-- It has failed, was closed, or was asked when nothing was left. -/
  finished : Bool := false
  deriving DecidableEq, Repr

/-- The number of characters a list of chunks may still deliver. -/
def Chunk.total : List Chunk → Nat
  | [] => 0
  | c :: rest => c.size + total rest

@[simp] theorem Chunk.total_nil : Chunk.total [] = 0 := rfl

@[simp] theorem Chunk.total_cons (c : Chunk) (rest : List Chunk) :
    Chunk.total (c :: rest) = c.size + Chunk.total rest := rfl

/-- A producer, and what is left of its last chunk. -/
structure ChunkSource where
  /-- The characters in hand. -/
  pending : List CodePoint := []
  /-- The producer. -/
  producer : Producer
  /-- The producer is not asked any more. -/
  exhausted : Bool := false
  /-- The name of the source. -/
  name : Option String := none
  deriving DecidableEq, Repr

namespace ChunkSource

/-- Asks a producer until a chunk has a character, which is handed out. -/
def fetch (s : ChunkSource) : List Chunk → Reply ChunkSource (Option CodePoint)
  | [] =>
    ⟨.ok none, { s with producer := ⟨[], true⟩, pending := [], exhausted := true }, []⟩
  | .fail e :: _ => ⟨.error e, { s with producer := ⟨[], true⟩, pending := [] }, []⟩
  | .text [] :: rest => s.fetch rest
  | .text (c :: cs) :: rest =>
    ⟨.ok (some c), { s with producer := { s.producer with chunks := rest }, pending := cs }, []⟩

/-- Hands out the next character in hand, or of the next chunk that has any. -/
def pull (s : ChunkSource) : Reply ChunkSource (Option CodePoint) :=
  match s.pending with
  | c :: cs => ⟨.ok (some c), { s with pending := cs }, []⟩
  | [] => if s.exhausted then ⟨.ok none, s, []⟩ else s.fetch s.producer.chunks

/-- The characters in hand and those still to be delivered. -/
def remaining (s : ChunkSource) : Nat := s.pending.length + Chunk.total s.producer.chunks

theorem remaining_fetch_le (s : ChunkSource) (chunks : List Chunk) :
    remaining (s.fetch chunks).next ≤ Chunk.total chunks := by
  fun_induction fetch s chunks with
  | case1 => simp [remaining]
  | case2 => simp [remaining]
  | case3 rest ih => simpa [Chunk.size] using ih
  | case4 c cs rest => simp [remaining, Chunk.size]

theorem remaining_fetch_lt (s : ChunkSource) (chunks : List Chunk) (c : CodePoint)
    (h : (s.fetch chunks).outcome = .ok (some c)) :
    remaining (s.fetch chunks).next < Chunk.total chunks := by
  fun_induction fetch s chunks with
  | case1 => simp at h
  | case2 => simp at h
  | case3 rest ih => simpa [Chunk.size] using ih h
  | case4 c' cs rest => simp [remaining, Chunk.size]

instance : CharSource ChunkSource where
  pull := pull
  close s := ⟨.ok (), { s with pending := [], producer := ⟨[], true⟩, exhausted := true }, []⟩
  available s := s.pending.length
  name s := s.name
  remaining := remaining
  remaining_le s := by
    simp only [pull]
    split
    · simp_all [remaining]
    · split
      · simp
      · have := remaining_fetch_le s s.producer.chunks
        simp only [remaining] at this ⊢
        omega
  remaining_lt s c h := by
    simp only [pull] at h ⊢
    split at h
    · simp_all [remaining]
    · split at h
      · simp at h
      · have := remaining_fetch_lt s s.producer.chunks c h
        simp_all only [remaining]
        simp_all

end ChunkSource

end Offside
