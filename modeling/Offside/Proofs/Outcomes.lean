import Offside.Proofs.Hearing

/-!
# Requests one after the other

A stream is asked again and again, whatever it answers: an error is an answer like any other, and
the next request goes on from where the last has stopped.  So a run is described by the stream
after some number of requests, and by the list of its answers to them.

Between two requests little can be queued.  What is there ends with a character of the source, or
with the end of the input, and each request takes the first of it.

## Main definitions

* `Stream.after`, `Stream.outcomes` — a stream after some requests, and its answers.
* `CharSource.Closes` — closing a source does not fail.

## Main results

* `Stream.outcomes_of_queue` — what is queued is handed out as it stands.
* `Stream.handOut_cases`, `Stream.pending_next` — what is handed out, and what is queued then.
* `Stream.next_frame`, `Stream.layout_after` — what requests leave alone.
* `Stream.frame_collect`, `Stream.frame_close` — what reading and closing do to the source.
-/

namespace Offside

/-- Closing a source does not fail, however far it has been read. -/
def CharSource.Closes {σ : Type} [CharSource σ] (source : σ) : Prop :=
  ∀ k, (CharSource.close (CharSource.asked source k)).outcome = .ok ()

namespace Stream

open Engine CharSource

variable {σ : Type} [CharSource σ] {s : Stream σ}

/-! ### Answers to some requests -/

/-- The stream after some requests. -/
def after (s : Stream σ) (n : Nat) : Stream σ := asked s n

/-- The answers of a stream to the first requests. -/
def outcomes (s : Stream σ) : Nat → List (Except ReadError (Option Token))
  | 0 => []
  | n + 1 => s.next.outcome :: s.next.next.outcomes n

@[simp] theorem after_zero (s : Stream σ) : s.after 0 = s := rfl

@[simp] theorem outcomes_zero (s : Stream σ) : s.outcomes 0 = [] := rfl

theorem after_succ (s : Stream σ) (n : Nat) : s.after (n + 1) = s.next.next.after n := rfl

theorem outcomes_succ (s : Stream σ) (n : Nat) :
    s.outcomes (n + 1) = s.next.outcome :: s.next.next.outcomes n := rfl

theorem after_add (s : Stream σ) (m n : Nat) : s.after (m + n) = (s.after m).after n :=
  asked_add s m n

theorem after_succ_last (s : Stream σ) (n : Nat) : s.after (n + 1) = (s.after n).next.next :=
  s.after_add n 1

theorem outcomes_add (s : Stream σ) (m n : Nat) :
    s.outcomes (m + n) = s.outcomes m ++ (s.after m).outcomes n := by
  induction m generalizing s with
  | zero => rw [Nat.zero_add, outcomes_zero, after_zero, List.nil_append]
  | succ m ih =>
    rw [Nat.succ_add, outcomes_succ, ih]
    rfl

theorem outcomes_succ_last (s : Stream σ) (n : Nat) :
    s.outcomes (n + 1) = s.outcomes n ++ [(s.after n).next.outcome] := s.outcomes_add n 1

/-- The first token of the queue is the answer. -/
theorem next_of_queue_eq_cons {t : Token} {rest : List (Option Token)} (hopen : s.closed = false)
    (hq : s.engine.queue = some t :: rest) : s.next = ⟨.ok (some t), s.handed t rest, []⟩ := by
  rw [next_of_queue_ne_nil hopen (by simp [hq]), handOut_of_queue_eq_cons hq]

/-- A queue of tokens is handed out as it stands. -/
theorem outcomes_of_queue (hopen : s.closed = false) (tokens : List Token) (last : Token)
    (rest : List (Option Token)) (hq : s.engine.queue = (tokens ++ [last]).map some ++ rest) :
    s.outcomes (tokens.length + 1) = (tokens ++ [last]).map (fun t => .ok (some t)) ∧
      s.after (tokens.length + 1) = s.handed last rest := by
  induction tokens generalizing s with
  | nil =>
    rw [List.length_nil, outcomes_succ, after_succ, next_of_queue_eq_cons hopen hq]
    exact ⟨rfl, rfl⟩
  | cons t tokens ih =>
    have hcons : s.engine.queue = some t :: ((tokens ++ [last]).map some ++ rest) := hq
    obtain ⟨houtcomes, hafter⟩ :=
      ih (s := s.handed t ((tokens ++ [last]).map some ++ rest)) hopen rfl
    rw [List.length_cons, outcomes_succ, after_succ, next_of_queue_eq_cons hopen hcons, houtcomes,
      hafter]
    exact ⟨rfl, rfl⟩

/-! ### Handing out -/

omit [CharSource σ] in
/-- What handing out leaves alone. -/
theorem exists_engine_handOut (s : Stream σ) :
    ∃ stack queue lineStart dedents, s.handOut.next.engine =
      { s.engine with stack := stack, queue := queue, lineStart := lineStart,
                      dedents := dedents } := by
  obtain ⟨rest, hrest⟩ : ∃ rest, s.engine.dequeue.2 = { s.engine with queue := rest } := by
    rw [dequeue]
    split
    · exact ⟨s.engine.queue, rfl⟩
    · exact ⟨_, rfl⟩
  show ∃ stack queue lineStart dedents, (s.engine.dequeue.2.deliver s.engine.dequeue.1).2.1 = _
  rw [hrest]
  cases s.engine.dequeue.1 with
  | some x => exact ⟨_, _, _, _, rfl⟩
  | none =>
    -- at the end of the input the open levels are closed
    rw [Engine.deliver, flush]
    split
    · exact ⟨_, _, _, _, rfl⟩
    · simp only [dequeue]
      split
      · exact ⟨_, _, _, _, rfl⟩
      · exact ⟨_, _, _, _, rfl⟩

omit [CharSource σ] in
@[simp] theorem layout_handOut (s : Stream σ) :
    s.handOut.next.engine.layout = s.engine.layout := by
  obtain ⟨stack, queue, lineStart, dedents, hengine⟩ := s.exists_engine_handOut
  rw [hengine]

omit [CharSource σ] in
@[simp] theorem exhausted_handOut (s : Stream σ) :
    s.handOut.next.engine.exhausted = s.engine.exhausted := by
  obtain ⟨stack, queue, lineStart, dedents, hengine⟩ := s.exists_engine_handOut
  rw [hengine]

omit [CharSource σ] in
/-- What is handed out of a queue, and what is queued then. -/
theorem handOut_cases (h : s.engine.Pending) (hne : s.engine.queue ≠ []) :
    (∃ t rest, s.engine.queue = some t :: rest ∧
        s.handOut = ⟨.ok (some t), s.handed t rest, []⟩ ∧ (s.handed t rest).engine.Pending) ∨
      (s.engine.queue = [none] ∧ s.engine.exhausted = true ∧ s.engine.depth = 0 ∧
        s.handOut = ⟨.ok none, s.shift [], []⟩) ∨
      ∃ n, s.engine.queue = [none] ∧ s.engine.exhausted = true ∧ s.engine.depth = n + 1 ∧
        s.handOut = ⟨.ok (some s.engine.dedentToken), s.flushed n, [.flush (n + 1)]⟩ := by
  cases h with
  | empty h => exact absurd h hne
  | line tokens c h =>
    cases tokens with
    | nil => exact Or.inl ⟨_, _, h, handOut_of_queue_eq_cons h, .empty rfl⟩
    | cons t tokens => exact Or.inl ⟨_, _, h, handOut_of_queue_eq_cons h, .line tokens c rfl⟩
  | ending tokens hended h =>
    cases tokens with
    | cons t tokens => exact Or.inl ⟨_, _, h, handOut_of_queue_eq_cons h, .ending tokens hended rfl⟩
    | nil =>
      cases hdepth : s.engine.depth with
      | zero => exact Or.inr (Or.inl ⟨h, hended, rfl, handOut_of_depth_eq_zero h hdepth⟩)
      | succ n => exact Or.inr (Or.inr ⟨n, h, hended, rfl, handOut_of_depth_eq_succ h hdepth⟩)

omit [CharSource σ] in
theorem pending_handOut (h : s.engine.Pending) (hne : s.engine.queue ≠ []) :
    s.handOut.next.engine.Pending := by
  rcases handOut_cases h hne with ⟨t, rest, -, hs, hrest⟩ | ⟨-, -, -, hs⟩ | ⟨n, -, hended, -, hs⟩
  · rw [hs]
    exact hrest
  · rw [hs]
    exact .empty rfl
  · rw [hs]
    exact .ending (List.replicate n s.engine.dedentToken) hended (by simp [flushed])

/-- What is queued is of this kind at all times. -/
theorem pending_next (hopen : s.closed = false) (h : s.engine.Pending) :
    s.next.next.engine.Pending := by
  rcases next_hears hopen with ⟨hne, hnext⟩ | ⟨hq, k, error, e, told, hhears, hnext⟩
  · rw [hnext]
    exact pending_handOut h hne
  · rw [hnext, Reply.next_after]
    have hpending : e.Pending := hhears.pending [] hq
    cases error with
    -- what was held back before an error stays queued
    | some x => exact hpending
    | none => exact pending_handOut (s := s.fed k e) hpending hhears.queue_ne_nil

/-! ### What requests leave alone -/

/-- A request takes some answers, and leaves the name alone. -/
theorem next_frame (hopen : s.closed = false) :
    ∃ k, s.next.next.source = asked s.source k ∧ s.next.next.name = s.name ∧
      s.next.next.closed = false := by
  rcases next_hears hopen with ⟨-, hnext⟩ | ⟨-, k, error, e, notices, -, hnext⟩
  · rw [hnext]
    exact ⟨0, rfl, rfl, hopen⟩
  · rw [hnext, Reply.next_after]
    cases error with
    | none => exact ⟨k, rfl, rfl, hopen⟩
    | some x => exact ⟨k, rfl, rfl, hopen⟩

/-- Requests change no convention. -/
theorem layout_next (hopen : s.closed = false) :
    s.next.next.engine.layout = s.engine.layout := by
  rcases next_hears hopen with ⟨-, hnext⟩ | ⟨-, k, error, e, notices, hhears, hnext⟩
  · rw [hnext, layout_handOut]
  · rw [hnext, Reply.next_after]
    cases error with
    | some x => exact hhears.layout_eq
    | none => exact (layout_handOut (s.fed k e)).trans hhears.layout_eq

/-- Two streams that are answered the same, and are the same then, are so afterwards. -/
theorem outcomes_congr {t : Stream σ} (houtcome : s.next.outcome = t.next.outcome)
    (hnext : s.next.next = t.next.next) (n : Nat) :
    s.outcomes (n + 1) = t.outcomes (n + 1) ∧ s.after (n + 1) = t.after (n + 1) := by
  rw [outcomes_succ, outcomes_succ, after_succ, after_succ, houtcome, hnext]
  exact ⟨rfl, rfl⟩

theorem name_after (hopen : s.closed = false) (n : Nat) :
    (s.after n).name = s.name ∧ (s.after n).closed = false := by
  induction n with
  | zero => exact ⟨rfl, hopen⟩
  | succ n ih =>
    obtain ⟨k, -, hname, hclosed⟩ := next_frame ih.2
    rw [after_succ_last]
    exact ⟨hname.trans ih.1, hclosed⟩

theorem layout_after (hopen : s.closed = false) (n : Nat) :
    (s.after n).engine.layout = s.engine.layout := by
  induction n with
  | zero => rfl
  | succ n ih => rw [after_succ_last, layout_next (name_after hopen n).2, ih]

/-! ### What reading does to the source -/

/-- A request asks the source for characters at most, and if the stream is closed not even that. -/
theorem frame_next (s : Stream σ) :
    s.next.next.closed = s.closed ∧
      ∃ k, (s.closed = true → k = 0) ∧ s.next.next.source = asked s.source k := by
  cases hclosed : s.closed with
  | true =>
    rw [next_of_closed hclosed]
    exact ⟨hclosed, 0, fun _ => rfl, rfl⟩
  | false =>
    obtain ⟨k, hsource, -, hopen⟩ := next_frame hclosed
    exact ⟨hopen, k, by simp, hsource⟩

theorem frame_collect (s : Stream σ) (n : Nat) :
    (s.collect n).2.next.closed = s.closed ∧
      ∃ k, (s.closed = true → k = 0) ∧ (s.collect n).2.next.source = asked s.source k := by
  induction n generalizing s with
  | zero => exact ⟨rfl, 0, fun _ => rfl, rfl⟩
  | succ n ih =>
    obtain ⟨hclosed, k, hk, hsource⟩ := s.frame_next
    rw [Stream.collect]
    rcases hnext : s.next with ⟨x | _ | t, s', notices⟩
    · rw [hnext] at hclosed hsource
      exact ⟨hclosed, k, hk, hsource⟩
    · rw [hnext] at hclosed hsource
      exact ⟨hclosed, k, hk, hsource⟩
    · rw [hnext] at hclosed hsource
      obtain ⟨hclosed', m, hm, hsource'⟩ := ih s'
      refine ⟨hclosed'.trans hclosed, k + m, fun h => ?_, ?_⟩
      · have := hk h
        have := hm (hclosed.trans h)
        omega
      · rw [asked_add, ← hsource]
        exact hsource'

theorem frame_readValue (s : Stream σ) (size : Value) :
    (s.readValue size).next.closed = s.closed ∧
      ∃ k, (s.closed = true → k = 0) ∧ (s.readValue size).next.source = asked s.source k := by
  rw [(s.reading_eq_collect size).2]
  exact s.frame_collect _

/-- A stream that is closed closes its source, unless it was closed before. -/
theorem frame_close (s : Stream σ) :
    s.close.next.closed = true ∧
      s.close.next.source = if s.closed then s.source else (CharSource.close s.source).next := by
  rw [Stream.close]
  cases hclosed : s.closed with
  | true => exact ⟨hclosed, rfl⟩
  | false => exact ⟨rfl, rfl⟩

/-! ### Sources that can be closed -/

/-- Closing a text does not fail. -/
theorem closes_text (source : TextSource) : Closes source := fun _ => rfl

/-- A stream closes if its source does. -/
theorem closes (h : Closes s.source) : Closes s := by
  intro k
  obtain ⟨m, hsource⟩ : ∃ m, (s.after k).source = asked s.source m := by
    induction k with
    | zero => exact ⟨0, rfl⟩
    | succ k ih =>
      obtain ⟨m, hm⟩ := ih
      obtain ⟨-, n, -, hn⟩ := (s.after k).frame_next
      exact ⟨m + n, by rw [after_succ_last, hn, hm, asked_add]⟩
  show (s.after k).close.outcome = _
  rw [outcome_close, hsource, h m, ite_self]

/-- Over a source that closes, the outcome is that of reading. -/
theorem outcome_readAndClose (h : Closes s.source) :
    (s.readAndClose (-1)).outcome = (s.read (-1)).outcome := by
  obtain ⟨-, k, -, hsource⟩ := s.frame_readValue (.int (-1))
  have hclose : (s.readValue (.int (-1))).next.close.outcome = .ok () := by
    rw [outcome_close, hsource, h k, ite_self]
  exact outcome_readAndClose_of_ok hclose

end Stream

end Offside
