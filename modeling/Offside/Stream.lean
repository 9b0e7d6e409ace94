import Offside.Engine

/-!
# Streams

A **stream** reads characters from a source and delivers them with markers where blocks open and
close.  It asks for one character at a time and never for more than it needs: only the leading
whitespace of a line is read ahead, up to the character that ends it, because that decides which
markers come before it.

A line whose leading whitespace is followed by a newline, by the end of the input or by a
character that opens an escape region is delivered as it was read, and the levels stay as they
are.

## Main definitions

* `Stream` — a source, the analysis of what was read from it, and whether it is closed.
* `Stream.pull` — one character from the source.
* `Stream.scan` — the leading whitespace of a line.
* `Stream.next` — one token.

## Main results

* `Stream.remaining_next_le`, `Stream.remaining_next_lt` — a bound on the tokens to come, so that
  a stream is a finite source itself.
-/

namespace Offside

/-- A source that is read through the analysis of indentation. -/
structure Stream (σ : Type) where
  /-- Where the characters come from. -/
  source : σ
  /-- The name of the stream, for messages. -/
  name : Option String := none
  /-- The state of the analysis. -/
  engine : Engine := {}
  /-- Nothing is read from a closed stream. -/
  closed : Bool := false

namespace Stream

variable {σ : Type} [CharSource σ]

/-! ### Reading characters -/

/-- Asks the source for a character, unless its end has been met before. -/
def pull (s : Stream σ) : Reply (Stream σ) (Option CodePoint) :=
  if s.engine.exhausted then ⟨.ok none, s, []⟩
  else
    match CharSource.pull s.source with
    | ⟨.ok none, source, notices⟩ =>
      ⟨.ok none, { s with source := source, engine := s.engine.finish }, notices⟩
    | ⟨.ok (some c), source, notices⟩ =>
      ⟨.ok (some c), { s with source := source, engine := s.engine.arrive c }, notices⟩
    | ⟨.error e, source, notices⟩ => ⟨.error e, { s with source := source }, notices⟩

omit [CharSource σ] in
/-- Queues an entry behind the whitespace that was read ahead, and hands out the first. -/
def replay (s : Stream σ) (entry : Option Token) : Reply (Stream σ) (Option Token) :=
  let step := (s.engine.enqueue entry).dequeue
  ⟨.ok step.1, { s with engine := step.2 }, []⟩

omit [CharSource σ] in
/-- Decides about a line whose leading whitespace `run` is followed by `c`. -/
def settle (s : Stream σ) (run : List CodePoint) (c : CodePoint) : Reply (Stream σ)
    (Option Token) :=
  match s.engine.settle s.name run c with
  | .error e => ⟨.error e, s, []⟩
  | .ok (engine, notices) => ⟨.ok engine.dequeue.1, { s with engine := engine.dequeue.2 }, notices⟩

omit [CharSource σ] in
/-- Keeps a character of the leading whitespace for later. -/
def hold (s : Stream σ) (c : CodePoint) : Stream σ :=
  { s with engine := s.engine.enqueue (some (.content c)) }

omit [CharSource σ] in
/-- Leaves only `rest` in the queue. -/
def shift (s : Stream σ) (rest : List (Option Token)) : Stream σ :=
  { s with engine := { s.engine with queue := rest } }

omit [CharSource σ] in
/-- Shows a character to the escape rules. -/
def observe (s : Stream σ) (c : CodePoint) : Stream σ := { s with engine := s.engine.observe c }

theorem remaining_source_pull_lt {s s' : Stream σ} {c : CodePoint} {notices : List Notice}
    (h : s.pull = ⟨.ok (some c), s', notices⟩) :
    CharSource.remaining s'.source < CharSource.remaining s.source := by
  have hlt := CharSource.remaining_lt s.source c
  unfold pull at h
  split at h
  · simp at h
  · split at h
    · simp at h
    · rename_i hp
      obtain ⟨hc, rfl, rfl⟩ : _ ∧ _ ∧ _ := by simpa using h
      rw [hp] at hlt
      exact hlt (by rw [hc])
    · simp at h

/-- Reads the leading whitespace of a line on from the unescaped character `c`, which follows
the whitespace `run`, and hands out the first token of the line. -/
def scan (s : Stream σ) (run : List CodePoint) (c : CodePoint) : Reply (Stream σ) (Option Token) :=
  if c ∈ s.engine.layout.whitespace then
    match _h : (s.hold c).pull with
    | ⟨.error e, s', notices⟩ => ⟨.error e, s', notices⟩
    | ⟨.ok none, s', notices⟩ => (s'.replay none).after notices
    | ⟨.ok (some d), s', notices⟩ =>
      let heard := notices ++ s'.engine.crossing d
      if s'.engine.escapes d then ((s'.observe d).replay (some (.content d))).after heard
      else ((s'.observe d).scan (run ++ [c]) d).after heard
  else if c = s.engine.layout.newline then s.replay (some (.content c))
  else s.settle run c
termination_by CharSource.remaining s.source
decreasing_by
  have hlt := remaining_source_pull_lt _h
  exact hlt

omit [CharSource σ] in
/-- Hands out an entry of the queue, or the answer of the source. -/
def deliver (s : Stream σ) (entry : Option Token) : Reply (Stream σ) (Option Token) :=
  let step := s.engine.deliver entry
  ⟨.ok step.1, { s with engine := step.2.1 }, step.2.2⟩

/-- Reads on from a character that has come from the source. -/
def take (s : Stream σ) (c : CodePoint) : Reply (Stream σ) (Option Token) :=
  if s.engine.escapes c || !s.engine.lineStart then
    ((s.observe c).deliver (some (.content c))).after (s.engine.crossing c)
  else
    match (s.observe c).scan [] c with
    | ⟨.error e, s', notices⟩ => ⟨.error e, s', s.engine.crossing c ++ notices⟩
    | ⟨.ok entry, s', notices⟩ => (s'.deliver entry).after (s.engine.crossing c ++ notices)

/-- The next token, or `none` once the input has ended and all levels are closed. -/
def next (s : Stream σ) : Reply (Stream σ) (Option Token) :=
  if s.closed then ⟨.error .closedStream, s, []⟩
  else match s.engine.queue with
    | entry :: rest => (s.shift rest).deliver entry
    | [] => match s.pull with
      | ⟨.error e, s', notices⟩ => ⟨.error e, s', notices⟩
      | ⟨.ok none, s', notices⟩ => (s'.deliver none).after notices
      | ⟨.ok (some c), s', notices⟩ => (s'.take c).after notices

/-! ### Streams are finite -/

/-- A bound on the tokens to come.  A character that is still to be read may bring a mark and
a level along, and a level a mark and the end. -/
def remaining (s : Stream σ) : Nat :=
  s.engine.potential + 5 * CharSource.remaining s.source

theorem remaining_pull_le (s : Stream σ) : s.pull.next.remaining ≤ s.remaining := by
  have hle := CharSource.remaining_le s.source
  unfold pull
  split
  · exact Nat.le_refl _
  · split
    all_goals
      rename_i hp
      simp only [hp] at hle
      simp only [remaining, Engine.potential_finish, Engine.potential_arrive]
      omega

theorem remaining_pull_lt {s s' : Stream σ} {c : CodePoint} {notices : List Notice}
    (h : s.pull = ⟨.ok (some c), s', notices⟩) : s'.remaining + 5 ≤ s.remaining := by
  have hlt := remaining_source_pull_lt h
  have hpot : s'.engine.potential = s.engine.potential := by
    unfold pull at h
    split at h
    · simp at h
    · split at h
      · simp at h
      · obtain ⟨rfl, rfl, rfl⟩ : _ ∧ _ ∧ _ := by simpa using h
        simp
      · simp at h
  simp only [remaining, hpot]
  omega

theorem remaining_hold (s : Stream σ) (c : CodePoint) : (s.hold c).remaining = s.remaining + 1 := by
  simp only [remaining, hold, Engine.potential_enqueue]
  omega

@[simp] theorem remaining_observe (s : Stream σ) (c : CodePoint) :
    (s.observe c).remaining = s.remaining := rfl

theorem remaining_shift_lt (s : Stream σ) {entry : Option Token} {rest : List (Option Token)}
    (h : s.engine.queue = entry :: rest) : (s.shift rest).remaining < s.remaining := by
  simp only [remaining, shift, Engine.potential, Engine.depth, h, List.length_cons]
  omega

theorem remaining_replay_le (s : Stream σ) (entry : Option Token) :
    (s.replay entry).next.remaining ≤ s.remaining := by
  have h := Engine.potential_dequeue_lt (s.engine.enqueue entry) (by simp [Engine.enqueue])
  simp only [Engine.potential_enqueue] at h
  simp only [replay, remaining]
  omega

theorem remaining_settle_le (s : Stream σ) (run : List CodePoint) (c : CodePoint) :
    (s.settle run c).next.remaining ≤ s.remaining + 4 := by
  unfold settle
  split
  · simp
  · rename_i engine notices h
    have h₁ := Engine.potential_settle_le h
    have h₂ := Engine.potential_dequeue_le engine
    simp only [remaining]
    omega

theorem remaining_scan_le (s : Stream σ) (run : List CodePoint) (c : CodePoint) :
    (s.scan run c).next.remaining ≤ s.remaining + 4 := by
  fun_induction scan s run c with
  | case1 s run c _ e s' notices h =>
    have := remaining_pull_le (s.hold c)
    simp only [h, remaining_hold] at this
    simp only
    omega
  | case2 s run c _ s' notices h =>
    have h₁ := remaining_pull_le (s.hold c)
    have h₂ := remaining_replay_le s' none
    simp only [h, remaining_hold] at h₁
    simp only [Reply.next_after]
    omega
  | case3 s run c _ d s' notices h heard _ =>
    have h₁ := remaining_pull_le (s.hold c)
    have h₂ := remaining_replay_le (s'.observe d) (some (.content d))
    simp only [h, remaining_hold] at h₁
    simp only [Reply.next_after, remaining_observe] at h₂ ⊢
    omega
  | case4 s run c _ d s' notices h heard _ ih =>
    have h₁ := remaining_pull_lt h
    simp only [remaining_hold] at h₁
    simp only [Reply.next_after, remaining_observe] at ih ⊢
    omega
  | case5 s run _ =>
    have := remaining_replay_le s (some (.content s.engine.layout.newline))
    omega
  | case6 s run c _ _ => exact remaining_settle_le s run c

theorem remaining_deliver_le (s : Stream σ) (entry : Option Token) :
    (s.deliver entry).next.remaining ≤ s.remaining := by
  have := s.engine.potential_deliver_le entry
  simp only [deliver, remaining]
  omega

theorem remaining_take_le (s : Stream σ) (c : CodePoint) :
    (s.take c).next.remaining ≤ s.remaining + 4 := by
  unfold take
  split
  · have := remaining_deliver_le (s.observe c) (some (.content c))
    simp only [Reply.next_after, remaining_observe] at this ⊢
    omega
  · have h := remaining_scan_le (s.observe c) [] c
    split
    · rename_i hs
      simpa only [hs, remaining_observe] using h
    · rename_i entry s' notices hs
      have := remaining_deliver_le s' entry
      simp only [hs, remaining_observe] at h
      simp only [Reply.next_after]
      omega

/-- No request raises the bound. -/
theorem remaining_next_le (s : Stream σ) : s.next.next.remaining ≤ s.remaining := by
  unfold next
  split
  · exact Nat.le_refl _
  · split
    · rename_i entry rest hq
      have := remaining_deliver_le (s.shift rest) entry
      have := remaining_shift_lt s hq
      omega
    · have hle := remaining_pull_le s
      split
      · rename_i hp
        simpa only [hp] using hle
      · rename_i s' notices hp
        have := remaining_deliver_le s' none
        simp only [hp] at hle
        simp only [Reply.next_after]
        omega
      · rename_i c s' notices hp
        have h₁ := remaining_pull_lt hp
        have h₂ := remaining_take_le s' c
        simp only [Reply.next_after]
        omega

/-- Each token lowers the bound. -/
theorem remaining_next_lt (s : Stream σ) (t : Token) (h : s.next.outcome = .ok (some t)) :
    s.next.next.remaining < s.remaining := by
  unfold next at h ⊢
  split at h
  · simp at h
  · rename_i hc
    simp only [hc, Bool.false_eq_true, ↓reduceIte]
    split at h
    · rename_i entry rest hq
      have := remaining_deliver_le (s.shift rest) entry
      have := remaining_shift_lt s hq
      omega
    · have hle := remaining_pull_le s
      split at h
      · simp at h
      · rename_i s' notices hp
        simp only [hp, Reply.outcome_after, deliver, Engine.deliver] at h hle
        have := s'.engine.potential_flush_lt t (by simpa using h)
        simp only [remaining, Reply.next_after, deliver, Engine.deliver] at hle ⊢
        omega
      · rename_i c s' notices hp
        have h₁ := remaining_pull_lt hp
        have h₂ := remaining_take_le s' c
        simp only [Reply.next_after]
        omega

end Stream

end Offside
