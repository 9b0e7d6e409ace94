import Offside.Proofs.Outcomes

/-!
# Deciding about a line

The whitespace that starts a line is read ahead, one character after the other, and each of them is
queued at once, since it may have to be handed out as it was read.  At the same time the scanner
keeps the whitespace for itself, to match it against the open levels.  So it has it twice, and when
it gets to the point where it decides about the line the two have to be the same: the queue is
emptied then, and what is put there depends on the whitespace of the scanner.

They are the same because a stream asks its source only when nothing is queued, and because the
scanner does nothing with a character but to keep it and queue it.

## Main definitions

* `held` — whitespace in the queue.
* `Stream.Reaches` — the scanner gets to the point where it decides about a line.
* `Stream.Settles` — a request decides about a line.

## Main results

* `Stream.Reaches.scan_eq` — the scanner decides where it gets to.
* `Stream.Settles.queue_eq` — **the whitespace of a line is queued when its line is decided**.
* `Stream.settles_or_stack_eq` — nothing else changes the levels before the end of the input.
-/

namespace Offside

/-- The entries of whitespace that is held back. -/
def held (run : List CodePoint) : List (Option Token) := run.map fun c => some (.content c)

@[simp] theorem held_nil : held [] = [] := rfl

@[simp] theorem held_cons (c : CodePoint) (run : List CodePoint) :
    held (c :: run) = some (.content c) :: held run := rfl

theorem held_append (run more : List CodePoint) : held (run ++ more) = held run ++ held more :=
  List.map_append

namespace Stream

open Engine CharSource

variable {σ : Type} [CharSource σ] {s t : Stream σ}

/-! ### The way of the scanner -/

/-- Reading on from `c`, which follows the whitespace `run`, the scanner gets to the point where it
decides about the line: it starts with `lead`, and `d` follows. -/
inductive Reaches :
    Stream σ → List CodePoint → CodePoint → Stream σ → List CodePoint → CodePoint → Prop where
  /-- The character decides. -/
  | here {s : Stream σ} {run : List CodePoint} {c : CodePoint} (hc : c ∉ s.engine.layout.whitespace)
      (hne : c ≠ s.engine.layout.newline) : Reaches s run c s run c
  /-- The character is held back, and the next one is not escaped. -/
  | on {s s' t : Stream σ} {run lead : List CodePoint} {c d b : CodePoint} {notices : List Notice}
      (hc : c ∈ s.engine.layout.whitespace)
      (hpull : (s.hold c).pull = ⟨.ok (some d), s', notices⟩) (hd : s'.engine.escapes d = false)
      (h : Reaches (s'.observe d) (run ++ [c]) d t lead b) : Reaches s run c t lead b

variable {run lead : List CodePoint} {c d : CodePoint}

/-- **When a line is decided its whitespace is what is queued.** -/
theorem Reaches.queue_eq (h : Reaches s run c t lead d) (hq : s.engine.queue = held run) :
    t.engine.queue = held lead := by
  induction h with
  | here hc hne => exact hq
  | @on s s' t run lead c d b notices hc hpull hd h ih =>
    apply ih
    show s'.engine.queue = _
    rw [queue_of_pull hpull, held_append, ← hq]
    rfl

/-- The scanner decides where it gets to. -/
theorem Reaches.scan_eq (h : Reaches s run c t lead d) :
    ∃ told, s.scan run c = (t.settle lead d).after told := by
  induction h with
  | @here s run c hc hne =>
    refine ⟨[], ?_⟩
    rw [scan, if_neg hc, if_neg hne]
    rfl
  | @on s s' t run lead c d b notices hc hpull hd h ih =>
    obtain ⟨told, hscan⟩ := ih
    refine ⟨notices ++ s'.engine.crossing d ++ told, ?_⟩
    rw [scan, if_pos hc]
    split
    · next hpull' => simp [hpull] at hpull'
    · next hpull' => simp [hpull] at hpull'
    · next hpull' =>
      rw [hpull, Reply.mk.injEq] at hpull'
      obtain ⟨houtcome, rfl, rfl⟩ := hpull'
      obtain rfl : d = _ := by simpa using houtcome
      simp only [hd, Bool.false_eq_true, if_false, hscan, Reply.after_after, List.append_assoc]

omit [CharSource σ] in
/-- What is read ahead is handed out as it was read, unless nothing but the end is queued. -/
theorem replay_of_held {entry : Option Token} (hq : s.engine.queue = held run)
    (h : run ≠ [] ∨ entry ≠ none) :
    (s.replay entry).next.engine.stack = s.engine.stack ∧ (s.replay entry).outcome ≠ .ok none := by
  rcases run with _ | ⟨c, run⟩
  · obtain ⟨t, rfl⟩ := Option.ne_none_iff_exists'.1 (h.resolve_left fun hne => hne rfl)
    simp [replay, enqueue, dequeue, hq]
  · simp [replay, enqueue, dequeue, hq]

/-- **If the scanner does not decide the levels stay as they are**, and there is something to hand
out or an error. -/
theorem reaches_or_stack_eq (s : Stream σ) (run : List CodePoint) (c : CodePoint)
    (hq : s.engine.queue = held run) :
    (∃ t lead d, Reaches s run c t lead d) ∨
      ((s.scan run c).next.engine.stack = s.engine.stack ∧
        (s.scan run c).outcome ≠ .ok none) := by
  -- a pull leaves the queue alone, so what is queued is the run that has been read
  have hqueue {s s' : Stream σ} {run : List CodePoint} {c : CodePoint}
      {o : Except ReadError (Option CodePoint)} {notices : List Notice}
      (hq : s.engine.queue = held run)
      (h : (s.hold c).pull = ⟨o, s', notices⟩) : s'.engine.queue = held (run ++ [c]) := by
    rw [queue_of_pull h, held_append, ← hq]
    rfl
  fun_induction scan s run c with
  | case1 s run c hc x s' notices h =>
    have hsame : s'.engine.stack = (s.hold c).engine.stack := stack_of_pull h
    exact .inr ⟨hsame, by simp⟩
  | case2 s run c hc s' notices h =>
    have hsame : s'.engine.stack = (s.hold c).engine.stack := stack_of_pull h
    obtain ⟨hstack, hsome⟩ : (s'.replay none).next.engine.stack = s'.engine.stack ∧
        (s'.replay none).outcome ≠ .ok none := replay_of_held (hqueue hq h) (.inl (by simp))
    exact .inr ⟨hstack.trans hsame, hsome⟩
  | case3 s run c hc d s' notices h heard hd =>
    have hsame : s'.engine.stack = (s.hold c).engine.stack := stack_of_pull h
    have hheld : s'.engine.queue = held (run ++ [c]) := hqueue hq h
    have hahead : (s'.observe d).engine.queue = held (run ++ [c]) := hheld
    obtain ⟨hstack, hsome⟩ := replay_of_held hahead (.inl (by simp))
    exact .inr ⟨hstack.trans hsame, hsome⟩
  | case4 s run c hc d s' notices h heard hd ih =>
    have hsame : s'.engine.stack = (s.hold c).engine.stack := stack_of_pull h
    have hheld : s'.engine.queue = held (run ++ [c]) := hqueue hq h
    have hahead : (s'.observe d).engine.queue = held (run ++ [c]) := hheld
    rw [Bool.not_eq_true] at hd
    -- whitespace goes on, and the scanner with it
    rcases ih hahead with ⟨t, lead, b, hreaches⟩ | ⟨hstack, hsome⟩
    · exact .inl ⟨t, lead, b, .on hc h hd hreaches⟩
    · exact .inr ⟨hstack.trans hsame, hsome⟩
  | case5 s run hc => exact .inr (replay_of_held hq (.inr (by simp)))
  | case6 s run c hc hnl => exact .inl ⟨s, run, c, .here hc hnl⟩

/-! ### Requests that decide -/

/-- A character at the start of a line goes to the scanner, unless it is escaped. -/
theorem take_of_lineStart (hesc : s.engine.escapes c = false)
    (hline : s.engine.lineStart = true) :
    s.take c = (serve ((s.observe c).scan [] c)).after (s.engine.crossing c) := by
  rw [take, if_neg (by simp [hesc, hline])]
  rcases (s.observe c).scan [] c with ⟨x | entry, s', more⟩
  · rfl
  · exact (Reply.after_after _ _ _).symm

/-- A request decides about a line: it has read the whitespace `lead` and then `d`, and `t` is what
it has come to. -/
def Settles (s t : Stream σ) (lead : List CodePoint) (d : CodePoint) : Prop :=
  s.closed = false ∧ s.engine.queue = [] ∧ ∃ c s' notices,
    s.pull = ⟨.ok (some c), s', notices⟩ ∧ s'.engine.escapes c = false ∧
      s'.engine.lineStart = true ∧ Reaches (s'.observe c) [] c t lead d

/-- **What is queued when a request decides about a line** is the whitespace of the line, and the
decision is what the request hands out. -/
theorem Settles.queue_eq (h : s.Settles t lead d) :
    t.engine.queue = held lead ∧ ∃ told, s.next = (serve (t.settle lead d)).after told := by
  obtain ⟨hopen, hq, c, s', notices, hpull, hesc, hline, hreaches⟩ := h
  have hqueue : (s'.observe c).engine.queue = held [] := (queue_of_pull hpull).trans hq
  obtain ⟨told, hscan⟩ := hreaches.scan_eq
  have htake := take_of_lineStart hesc hline
  refine ⟨hreaches.queue_eq hqueue, notices ++ s'.engine.crossing c ++ told, ?_⟩
  rw [Stream.next, if_neg (by simp [hopen]), hq]
  simp only [hpull, htake, hscan, serve_after, Reply.after_after, List.append_assoc]

omit [CharSource σ] in
/-- What is delivered changes no level, unless it is the end. -/
theorem stack_serve {r : Reply (Stream σ) (Option Token)} (h : r.outcome ≠ .ok none) :
    (serve r).next.engine.stack = r.next.engine.stack := by
  rcases r with ⟨x | _ | u, s', notices⟩
  · rfl
  · exact absurd rfl h
  · rfl

/-- **Only such a request changes the levels**, unless the input has ended. -/
theorem settles_or_stack_eq (h : s.engine.Pending) :
    (∃ t lead d, s.Settles t lead d) ∨ s.next.next.engine.stack = s.engine.stack ∨
      s.next.next.engine.exhausted = true := by
  cases hclosed : s.closed with
  | true =>
    rw [next_of_closed hclosed]
    exact .inr (.inl rfl)
  | false =>
    by_cases hq : s.engine.queue = []
    · -- nothing is queued: the next character may start a line
      rcases hpull : s.pull with ⟨x | _ | c, s', notices⟩
      · have hnext : s.next = ⟨.error x, s', notices⟩ := by
          simp only [Stream.next, hclosed, hq, hpull, Bool.false_eq_true, if_false]
        rw [hnext]
        exact .inr (.inl (stack_of_pull hpull))
      · have hnext : s.next = (s'.deliver none).after notices := by
          simp only [Stream.next, hclosed, hq, hpull, Bool.false_eq_true, if_false]
        have hhandOut : s'.handOut = s'.deliver none := by
          simp only [Stream.handOut, dequeue, queue_of_pull hpull, hq]
        rw [hnext, ← hhandOut, Reply.next_after, exhausted_handOut]
        exact .inr (.inr (exhausted_of_pull hpull))
      · have hnext : s.next = (s'.take c).after notices := by
          simp only [Stream.next, hclosed, hq, hpull, Bool.false_eq_true, if_false]
        rw [hnext, Reply.next_after, ← stack_of_pull hpull]
        by_cases hpasses : (s'.engine.escapes c || !s'.engine.lineStart) = true
        · rw [take, if_pos hpasses]
          exact .inr (.inl rfl)
        · obtain ⟨hesc, hline⟩ : s'.engine.escapes c = false ∧ s'.engine.lineStart = true := by
            simpa using hpasses
          have hqueue : (s'.observe c).engine.queue = held [] := (queue_of_pull hpull).trans hq
          rcases reaches_or_stack_eq (s'.observe c) [] c hqueue with
            ⟨t, lead, d, hreaches⟩ | ⟨hstack, hsome⟩
          · exact .inl ⟨t, lead, d, hclosed, hq, c, s', notices, hpull, hesc, hline, hreaches⟩
          · rw [take_of_lineStart hesc hline, Reply.next_after, stack_serve hsome]
            exact .inr (.inl hstack)
    · rw [next_of_queue_ne_nil hclosed hq]
      -- something is queued: it is handed out, and only the end closes levels
      rcases handOut_cases h hq with
        ⟨u, rest, -, hs, -⟩ | ⟨-, hended, -, hs⟩ | ⟨n, -, hended, -, hs⟩
      · rw [hs]
        exact .inr (.inl rfl)
      · rw [hs]
        exact .inr (.inl rfl)
      · rw [hs]
        exact .inr (.inr hended)

end Stream

end Offside
