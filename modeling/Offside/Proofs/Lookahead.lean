import Offside.Proofs.Ending

/-!
# What is at hand

A stream whose queue is not empty claims to have as much at hand as its queue is long.  So many
requests are indeed answered without asking the source, and their answers are known: first the
tokens of the queue, one after the other.  But the queue may end with an entry that stands for the
end of the input, and this entry is counted too.  Where levels are open it turns into the first of
their marks.  At the outermost level there is nothing behind it, and the last of the answers that
were announced is the end.

## Main definitions

* `Engine.announced` — the answers that the queue stands for.

## Main results

* `Stream.Sound.source_after` — no more requests than the queue is long leave the source alone.
* `Stream.Sound.outcomes_queue` — what is queued is what is answered.
* `Stream.outcomes_available` — **what is at hand, at all times**.
-/

namespace Offside

namespace Engine

/-- The answers that the queue stands for.  The entry for the end is the first mark of the open
levels, if there are any. -/
def announced (e : Engine) : List (Except ReadError (Option Token)) :=
  e.due.map (fun t => .ok (some t)) ++
    if e.queue.getLast? = some none then [.ok (if e.depth = 0 then none else some e.dedentToken)]
    else []

variable {e : Engine}

theorem announced_of_line {tokens : List Token} {c : CodePoint}
    (hq : e.queue = (tokens ++ [Token.content c]).map some) :
    e.announced = (tokens ++ [Token.content c]).map fun t => .ok (some t) := by
  have hlast : e.queue.getLast? = some (some (.content c)) := by simp [hq]
  rw [announced, due_of_queue_eq_map hq, hlast, if_neg (by simp), List.append_nil]

theorem announced_of_ending {tokens : List Token} (hq : e.queue = tokens.map some ++ [none]) :
    e.announced = tokens.map (fun t => .ok (some t)) ++
      [.ok (if e.depth = 0 then none else some e.dedentToken)] := by
  have hlast : e.queue.getLast? = some none := by simp [hq]
  have hdue : e.due = tokens := by simp [due, hq, List.reduceOption]
  rw [announced, hdue, hlast, if_pos rfl]

/-- All answers but the last are tokens, and the last is one unless it is the end. -/
theorem Pending.announced_cases (h : e.Pending) (hne : e.queue ≠ []) :
    ∃ (tokens : List Token) (last : Option Token),
      e.announced = tokens.map (fun t => .ok (some t)) ++ [.ok last] ∧
      e.queue.length = tokens.length + 1 ∧
      (last = none ↔ e.queue.getLast? = some none ∧ e.depth = 0) := by
  cases h with
  | empty hq => exact absurd hq hne
  | line tokens c hq =>
    refine ⟨tokens, some (.content c), ?_, by simp [hq], by simp [hq]⟩
    rw [announced_of_line hq, List.map_append, List.map_singleton]
  | ending tokens hended hq =>
    refine ⟨tokens, _, announced_of_ending hq, by simp [hq], ?_⟩
    by_cases hdepth : e.depth = 0
    · simp [hq, hdepth]
    · simp [hdepth]

end Engine

namespace Stream

open Engine CharSource

variable {σ : Type} [CharSource σ] {s : Stream σ}

theorem available_of_queue_ne_nil (hq : s.engine.queue ≠ []) :
    s.available = s.engine.queue.length := if_neg hq

/-- What is queued is handed out without the source. -/
theorem Sound.source_next (h : s.Sound) (hq : s.engine.queue ≠ []) :
    s.next.next.source = s.source ∧
      s.engine.queue.length ≤ s.next.next.engine.queue.length + 1 := by
  rw [next_of_queue_ne_nil h.closed_eq hq]
  rcases handOut_cases h.pending hq with
    ⟨t, rest, hqueue, hs, -⟩ | ⟨hqueue, -, -, hs⟩ | ⟨n, hqueue, -, -, hs⟩
  · rw [hs, hqueue]
    exact ⟨rfl, by simp [handed]⟩
  · rw [hs, hqueue]
    exact ⟨rfl, by simp⟩
  · rw [hs, hqueue]
    exact ⟨rfl, by simp⟩

/-- **As many requests as the queue is long leave the source alone.** -/
theorem Sound.source_after (h : s.Sound) {k : Nat} (hk : k ≤ s.engine.queue.length) :
    (s.after k).source = s.source := by
  induction k generalizing s with
  | zero => rfl
  | succ k ih =>
    have hq : s.engine.queue ≠ [] := List.ne_nil_of_length_pos (by omega)
    obtain ⟨hsource, hlength⟩ := h.source_next hq
    rw [after_succ, ih h.next (by omega), hsource]

/-- Where the end is queued it comes last, and what is answered then is the end or the first mark of
the open levels. -/
theorem outcomes_of_ending (hopen : s.closed = false) (tokens : List Token)
    (hq : s.engine.queue = tokens.map some ++ [none]) :
    s.outcomes (tokens.length + 1) = tokens.map (fun t => .ok (some t)) ++
      [.ok (if s.engine.depth = 0 then none else some s.engine.dedentToken)] := by
  induction tokens generalizing s with
  | nil =>
    rw [List.length_nil, outcomes_succ, next_of_queue_ne_nil hopen (by simp [hq])]
    cases hdepth : s.engine.depth with
    | zero =>
      rw [handOut_of_depth_eq_zero hq hdepth]
      rfl
    | succ n =>
      rw [handOut_of_depth_eq_succ hq hdepth]
      rfl
  | cons t tokens ih =>
    have hcons : s.engine.queue = some t :: (tokens.map some ++ [none]) := hq
    have hrest := ih (s := s.handed t (tokens.map some ++ [none])) hopen rfl
    rw [List.length_cons, outcomes_succ, next_of_queue_eq_cons hopen hcons, hrest]
    rfl

/-- **What is queued is what is answered.** -/
theorem Sound.outcomes_queue (h : s.Sound) :
    s.outcomes s.engine.queue.length = s.engine.announced := by
  cases h.pending with
  | empty hq => simp [announced, due_of_queue_nil hq, hq]
  | line tokens c hq =>
    have hlength : s.engine.queue.length = tokens.length + 1 := by simp [hq]
    obtain ⟨houtcomes, -⟩ := outcomes_of_queue h.closed_eq tokens (.content c) [] (by simp [hq])
    rw [hlength, houtcomes, announced_of_line hq]
  | ending tokens hended hq =>
    have hlength : s.engine.queue.length = tokens.length + 1 := by simp [hq]
    rw [hlength, outcomes_of_ending h.closed_eq tokens hq, announced_of_ending hq]

/-- **What is at hand is what is answered, and the end may be counted too.**  Take any open stream
with something in its queue, whatever has been done to it.  It claims to have as much at hand as its
queue is long.  So many requests do not touch the source, they are answered with what is queued, and
all of them but the last hand out a token.  The last does so as well, unless the queue ends with the
end of the input and no level is open. -/
theorem outcomes_available (source : σ) (name : Option String) (l : Layout) (rules : List Rule)
    (ops : List Operation) :
    let s := ((start source name l rules).run ops).2
    s.closed = false → s.engine.queue ≠ [] → ∃ n : Nat, s.available = n ∧
      (∀ k ≤ n, (s.after k).source = s.source) ∧ s.outcomes n = s.engine.announced ∧
      (∀ answer ∈ s.outcomes (n - 1), ∃ t, answer = .ok (some t)) ∧
      ((∀ answer ∈ s.outcomes n, ∃ t, answer = .ok (some t)) ↔
        ¬ (s.engine.queue.getLast? = some none ∧ s.engine.depth = 0)) := by
  intro s hopen hq
  have hsound : s.Sound := sound_run source name l rules hopen
  obtain ⟨tokens, last, hannounced, hlength, hlast⟩ := hsound.pending.announced_cases hq
  have houtcomes := hsound.outcomes_queue
  refine ⟨s.engine.queue.length, available_of_queue_ne_nil hq, fun k hk => hsound.source_after hk,
    houtcomes, ?_, ?_⟩
  · rw [hannounced, hlength, outcomes_succ_last] at houtcomes
    rw [hlength, Nat.add_sub_cancel, List.append_inj_left' houtcomes rfl]
    simp
  · rw [houtcomes, hannounced, ← hlast]
    cases last with
    | none => simp
    | some t =>
      refine iff_of_true (fun answer hanswer => ?_) (by simp)
      rcases List.mem_append.1 hanswer with hmem | hmem
      · obtain ⟨u, -, rfl⟩ := List.mem_map.1 hmem
        exact ⟨u, rfl⟩
      · exact ⟨t, List.mem_singleton.1 hmem⟩

/-- A blank and the end are at hand when one of two blanks has been handed out. -/
theorem outcomes_available_blanks :
    let s := ((start ({ rest := "  ".codePoints } : TextSource) none {} []).run [.next]).2
    (s.closed = false ∧ s.engine.queue ≠ []) ∧ s.available = 2 ∧
      s.outcomes 2 = [.ok (some (.content ' ')), .ok none] := by
  intro s
  have hopen : s.closed = false := by decide +kernel
  have hqueue : s.engine.queue = [some (.content ' '), none] := by decide +kernel
  have hannounced : s.engine.announced = [.ok (some (.content ' ')), .ok none] := by decide +kernel
  have hne : s.engine.queue ≠ [] := by simp [hqueue]
  obtain ⟨n, hn, -, houtcomes, -⟩ :=
    outcomes_available ({ rest := "  ".codePoints } : TextSource) none {} [] [.next] hopen hne
  have hlength : s.available = 2 := (available_of_queue_ne_nil hne).trans (by simp [hqueue])
  obtain rfl : n = 2 := by
    have : (n : Int) = 2 := hn.symm.trans hlength
    omega
  exact ⟨⟨hopen, hne⟩, hlength, houtcomes.trans hannounced⟩

/-- So a stream may have less to hand out than it claims to have at hand. -/
theorem available_counts_end :
    ¬ ∀ (text : List CodePoint) (ops : List Operation),
      let s := ((start ({ rest := text } : TextSource) none {} []).run ops).2
      s.closed = false → s.engine.queue ≠ [] → ∀ n : Nat, s.available = n →
        ∀ answer ∈ s.outcomes n, ∃ t, answer = .ok (some t) := by
  intro h
  have hcount : ∀ answer ∈
      (((start ({ rest := "  ".codePoints } : TextSource) none {} []).run [.next]).2).outcomes 2,
        ∃ t, answer = .ok (some t) :=
    h "  ".codePoints [.next] (by decide +kernel) (by decide +kernel) 2 (by decide +kernel)
  obtain ⟨t, ht⟩ := hcount (.ok none) (by decide +kernel)
  cases ht

end Stream

end Offside
