import Mathlib.Algebra.GroupWithZero.Nat
import Offside.Proofs.Balance
import Offside.Proofs.Marks
import Offside.Proofs.Outcomes
import Offside.Source.Script

/-!
# The end of the input

When a stream has answered that the input has ended, nothing is queued, no level is open, and it has
met the end of its source.  It will not ask its source again, not even one that would go on, and as
long as it is open every request is answered in the same way and changes nothing.  Whatever is done
in between, a change of the conventions for instance, there is nothing left for it to change.

So a request behind the end is as good as none.  This is why a text may be read in any number of
pieces: it makes no difference that the last pieces are asked of a stream that has ended.

## Main definitions

* `Engine.Over` — the end has been met and handed out.
* `Stream.Sound` — a stream is open, and its queue is in order.
* `Operation.closes` — what closes a stream or its source.
* `Stream.reads` — reading in pieces.

## Main results

* `Stream.sound_run` — streams are in order at all times.
* `Stream.next_of_over`, `Stream.run_of_over` — nothing happens behind the end.
* `Stream.Sound.reads_eq_read` — **reading in pieces is reading at once**.
* `Stream.end_absorbing` — all of this at all times.
-/

namespace Offside

namespace Engine

variable {e e' : Engine}

/-- The end of the input has been met and handed out, and all levels are closed. -/
structure Over (e : Engine) : Prop extends e.Ended where
  exhausted_eq : e.exhausted = true

theorem Pending.alike (h : e.Pending) (halike : e.Alike e') : e'.Pending := by
  obtain ⟨l, t, rfl⟩ := halike
  cases h with
  | empty hq => exact .empty hq
  | line tokens c hq => exact .line tokens c hq
  | ending tokens hended hq => exact .ending tokens hended hq

theorem Over.alike (h : e.Over) (halike : e.Alike e') : e'.Over := by
  obtain ⟨l, t, rfl⟩ := halike
  exact ⟨⟨h.depth_eq, h.queue_eq⟩, h.exhausted_eq⟩

end Engine

/-- An operation closes a stream or its source. -/
def Operation.closes : Operation → Bool
  | .readAndClose _ => true
  | .close => true
  | .closeSource => true
  | _ => false

namespace Stream

open Engine CharSource

variable {σ : Type} [CharSource σ] {s : Stream σ}

/-! ### Streams in order -/

/-- A stream is open, and its queue is as it may be between two requests. -/
structure Sound (s : Stream σ) : Prop where
  closed_eq : s.closed = false
  pending : s.engine.Pending

theorem Sound.next (h : s.Sound) : s.next.next.Sound := by
  obtain ⟨-, -, -, hclosed⟩ := next_frame h.closed_eq
  exact ⟨hclosed, pending_next h.closed_eq h.pending⟩

/-- What is queued is in order at all times, whether the stream is open or not. -/
theorem invariant_pending :
    Invariant (fun _ => True) fun _ (s : Stream σ) => s.engine.Pending where
  next {_ s} h := by
    cases hclosed : s.closed with
    | false => exact pending_next hclosed h
    | true =>
      rwa [next_of_closed hclosed]
  close _ h := h
  adopt _ h := h.alike (alike_adopt _ _)

theorem pending_run (source : σ) (name : Option String) (l : Layout) (rules : List Rule)
    (ops : List Operation) : ((start source name l rules).run ops).2.engine.Pending := by
  have hstart : (start source name l rules).engine.Pending := .empty rfl
  exact @Invariant.run _ _ _ _ [] _ invariant_pending hstart _ fun op _ => op.within_true

theorem sound_run (source : σ) (name : Option String) (l : Layout) (rules : List Rule)
    {ops : List Operation} (hopen : ((start source name l rules).run ops).2.closed = false) :
    ((start source name l rules).run ops).2.Sound where
  closed_eq := hopen
  pending := pending_run source name l rules ops

/-! ### Behind the end -/

/-- **Behind the end a request is answered with the end and changes nothing**; the source is not
asked. -/
theorem next_of_over (hopen : s.closed = false) (h : s.engine.Over) :
    s.next = ⟨.ok none, s, []⟩ := by
  have hpull : s.pull = ⟨.ok none, s, []⟩ := if_pos h.exhausted_eq
  have hflush : s.engine.flush = (none, s.engine, []) := if_pos h.depth_eq
  rw [Stream.next, if_neg (by simp [hopen]), h.queue_eq]
  simp only [hpull, deliver, Engine.deliver, hflush, Reply.after_nil]

omit [CharSource σ] in
/-- What is handed out last is the end, and it leaves nothing. -/
theorem over_handOut (hp : s.engine.Pending) (hne : s.engine.queue ≠ [])
    (h : s.handOut.outcome = .ok none) : s.handOut.next.engine.Over := by
  rcases handOut_cases hp hne with ⟨t, rest, -, hs, -⟩ | ⟨-, hended, hdepth, hs⟩ | ⟨n, -, -, -, hs⟩
  · simp [hs] at h
  · rw [hs]
    exact ⟨⟨hdepth, rfl⟩, hended⟩
  · simp [hs] at h

/-- **When the end has been handed out nothing is queued and no level is open.** -/
theorem Sound.over_next (h : s.Sound) (hend : s.next.outcome = .ok none) :
    s.next.next.engine.Over := by
  rcases next_hears h.closed_eq with ⟨hne, hs⟩ | ⟨hq, k, error, e, told, hhears, hs⟩
  · rw [hs] at hend ⊢
    exact over_handOut h.pending hne hend
  · rw [hs] at hend ⊢
    cases error with
    | some x => simp [reply] at hend
    | none => exact over_handOut (s := s.fed k e) (hhears.pending [] hq) hhears.queue_ne_nil hend

/-- A stream that has ended hands out nothing, even if it is closed. -/
theorem rest_of_over (h : s.engine.Over) : tokensOf s.next.outcome = [] ∧ s.next.next = s := by
  cases hclosed : s.closed with
  | false =>
    rw [next_of_over hclosed h]
    exact ⟨rfl, rfl⟩
  | true =>
    rw [next_of_closed hclosed]
    exact ⟨rfl, rfl⟩

theorem collect_of_over (h : s.engine.Over) (n : Nat) :
    (s.collect n).1 = [] ∧ (s.collect n).2.next = s := by
  cases n with
  | zero => exact ⟨rfl, rfl⟩
  | succ n =>
    obtain ⟨htokens, hrest⟩ := rest_of_over h
    rw [Stream.collect]
    rcases hnext : s.next with ⟨x | _ | t, s', notices⟩
    · rw [hnext] at hrest
      exact ⟨rfl, hrest⟩
    · rw [hnext] at hrest
      exact ⟨rfl, hrest⟩
    · simp [hnext] at htokens

theorem over_close (h : s.engine.Over) : s.close.next.engine.Over := by
  rw [Stream.close]
  split
  · exact h
  · exact h

/-- **Behind the end an operation hands nothing out**, and unless it closes something it changes
nothing but conventions. -/
theorem perform_of_over (h : s.engine.Over) (op : Operation) :
    (s.perform op).1 = [] ∧ (s.perform op).2.engine.Over ∧
      (op.closes = false →
        (s.perform op).2.closed = s.closed ∧ (s.perform op).2.source = s.source) := by
  -- reading is a number of requests, each of which answers with the end and changes nothing
  have hreading (size : Value) : (s.reading size).1 = [] ∧ (s.readValue size).next = s := by
    obtain ⟨htokens, hnext⟩ := s.reading_eq_collect size
    rw [htokens, hnext]
    exact collect_of_over h _
  cases op with
  | next =>
    obtain ⟨htokens, hrest⟩ := rest_of_over h
    refine ⟨htokens, ?_, fun _ => ?_⟩
    · rwa [perform, hrest]
    · rw [perform, hrest]
      exact ⟨rfl, rfl⟩
  | read size =>
    obtain ⟨htokens, hnext⟩ := hreading size
    refine ⟨htokens, ?_, fun _ => ?_⟩
    · rwa [perform, hnext]
    · rw [perform, hnext]
      exact ⟨rfl, rfl⟩
  | iterate =>
    obtain ⟨htokens, hrest⟩ := collect_of_over h (s.remaining + 1)
    rw [perform, s.drain_eq_collect (Nat.lt_succ_self _), htokens, hrest]
    exact ⟨rfl, h, fun _ => ⟨rfl, rfl⟩⟩
  | readAndClose size =>
    obtain ⟨htokens, hnext⟩ := hreading size
    refine ⟨htokens, ?_, by simp [Operation.closes]⟩
    show (s.readValue size).next.close.next.engine.Over
    rw [hnext]
    exact over_close h
  | close => exact ⟨rfl, over_close h, by simp [Operation.closes]⟩
  | closeSource => exact ⟨rfl, h, by simp [Operation.closes]⟩
  | adopt convention => exact ⟨rfl, h.alike (alike_adopt _ _), fun _ => ⟨rfl, rfl⟩⟩

/-- **Nothing happens behind the end.**  No operation hands anything out, and if none of them closes
something the source is left as it was. -/
theorem run_of_over (h : s.engine.Over) (ops : List Operation) :
    (s.run ops).1 = [] ∧ (s.run ops).2.engine.Over ∧
      ((∀ op ∈ ops, op.closes = false) →
        (s.run ops).2.closed = s.closed ∧ (s.run ops).2.source = s.source) := by
  induction ops generalizing s with
  | nil => exact ⟨rfl, h, fun _ => ⟨rfl, rfl⟩⟩
  | cons op ops ih =>
    obtain ⟨htokens, hover, hsame⟩ := perform_of_over h op
    obtain ⟨hmore, hover', hsame'⟩ := ih hover
    have htokens' : (s.run (op :: ops)).1 = (s.perform op).1 ++ ((s.perform op).2.run ops).1 := rfl
    refine ⟨by rw [htokens', htokens, hmore, List.append_nil], hover', fun hops => ?_⟩
    obtain ⟨hclosed, hsource⟩ := hsame (hops op List.mem_cons_self)
    obtain ⟨hclosed', hsource'⟩ := hsame' fun op' hop' => hops op' (List.mem_cons_of_mem _ hop')
    exact ⟨hclosed'.trans hclosed, hsource'.trans hsource⟩

/-! ### Reading in pieces -/

/-- Goes on with another reading, unless there was an error. -/
def andThen (r : List Token × Reply (Stream σ) Unit)
    (more : Stream σ → List Token × Reply (Stream σ) Unit) : List Token × Reply (Stream σ) Unit :=
  match r with
  | (tokens, ⟨.error x, s, notices⟩) => (tokens, ⟨.error x, s, notices⟩)
  | (tokens, ⟨.ok (), s, notices⟩) => ahead tokens notices (more s)

theorem Sound.collect (h : s.Sound) (n : Nat) : (s.collect n).2.next.Sound := by
  induction n generalizing s with
  | zero => exact h
  | succ n ih =>
    have hnext := h.next
    rw [Stream.collect]
    rcases hs : s.next with ⟨x | _ | t, s', notices⟩
    · rwa [hs] at hnext
    · rwa [hs] at hnext
    · rw [hs] at hnext
      exact ih hnext

theorem collect_eq_of_over (hopen : s.closed = false) (h : s.engine.Over) (n : Nat) :
    s.collect n = ([], ⟨.ok (), s, []⟩) := by
  cases n with
  | zero => rfl
  | succ n => rw [Stream.collect, next_of_over hopen h]

/-- **A number of tokens may be collected in two parts.** -/
theorem Sound.collect_add (h : s.Sound) (m n : Nat) :
    s.collect (m + n) = andThen (s.collect m) fun t => t.collect n := by
  induction m generalizing s with
  | zero =>
    rw [Nat.zero_add]
    rfl
  | succ m ih =>
    have hnext := h.next
    have hend := h.over_next
    rw [Nat.succ_add, Stream.collect, Stream.collect]
    rcases hs : s.next with ⟨x | _ | t, s', notices⟩
    · rfl
    · -- the stream has ended, so the second part is empty
      rw [hs] at hnext hend
      simp only [andThen, collect_eq_of_over hnext.closed_eq (hend rfl)]
      simp [ahead, Reply.after]
    · rw [hs] at hnext
      simp only [ih hnext]
      rcases s'.collect m with ⟨tokens, x | _, s'', told⟩
      · rfl
      · simp [andThen, ahead, Reply.after]

theorem read_natCast (s : Stream σ) (n : Nat) :
    s.read n = (s.collect n).2.map fun _ => Token.text (s.collect n).1 := by
  rw [read, if_neg (by omega), Int.toNat_natCast]

/-- Reads in pieces, up to the first error. -/
def reads (s : Stream σ) : List Nat → Reply (Stream σ) (List CodePoint)
  | [] => ⟨.ok [], s, []⟩
  | n :: sizes =>
    match s.read n with
    | ⟨.error x, t, notices⟩ => ⟨.error x, t, notices⟩
    | ⟨.ok text, t, notices⟩ => ((t.reads sizes).map (text ++ ·)).after notices

/-- **Reading in pieces is reading at once**, with the same error if there is one. -/
theorem Sound.reads_eq_read (h : s.Sound) (sizes : List Nat) :
    s.reads sizes = s.read sizes.sum := by
  induction sizes generalizing s with
  | nil => rfl
  | cons n sizes ih =>
    have hsound := h.collect n
    rw [reads, List.sum_cons, read_natCast, read_natCast, h.collect_add]
    rcases hn : s.collect n with ⟨tokens, x | _, t, notices⟩
    · rfl
    · rw [hn] at hsound
      have hrest := ih hsound
      rw [read_natCast] at hrest
      have hboth : andThen (tokens, ⟨.ok (), t, notices⟩) (·.collect sizes.sum) =
          ahead tokens notices (t.collect sizes.sum) := rfl
      rw [hboth]
      show ((t.reads sizes).map (Token.text tokens ++ ·)).after notices = _
      rw [hrest]
      rcases t.collect sizes.sum with ⟨more, x | _, u, told⟩
      · rfl
      · simp [Reply.map, Except.map, Reply.after, ahead, Token.text]

/-! ### Reading to the end -/

/-- A stream that is read to its end is asked for one token after the other, and then answers with
the end. -/
theorem outcomes_of_drain {tokens : List Token} {last : Stream σ} {notices : List Notice}
    (h : s.drain = (tokens, ⟨.ok (), last, notices⟩)) :
    s.outcomes (tokens.length + 1) = tokens.map (fun t => .ok (some t)) ++ [.ok none] ∧
      s.after (tokens.length + 1) = last := by
  induction tokens generalizing s notices with
  | nil =>
    rw [drain_eq] at h
    rcases hs : s.next with ⟨x | _ | t, s', told⟩
    · simp [hs, drainAfter] at h
    · obtain ⟨rfl, -⟩ : s' = last ∧ _ := by simpa [hs, drainAfter] using h
      rw [List.length_nil, outcomes_succ, after_succ, hs]
      exact ⟨rfl, rfl⟩
    · simp [hs, drainAfter, ahead] at h
  | cons t tokens ih =>
    rw [drain_eq] at h
    rcases hs : s.next with ⟨x | _ | u, s', told⟩
    · simp [hs, drainAfter] at h
    · simp [hs, drainAfter] at h
    · rcases hdrain : s'.drain with ⟨more, outcome, last', told'⟩
      obtain ⟨⟨rfl, rfl⟩, rfl, rfl, -⟩ :
          (u = t ∧ more = tokens) ∧ outcome = .ok () ∧ last' = last ∧ _ := by
        simpa [hs, hdrain, drainAfter, ahead, Reply.after] using h
      obtain ⟨houtcomes, hafter⟩ := ih hdrain
      rw [List.length_cons, outcomes_succ, after_succ, hs, houtcomes, hafter]
      exact ⟨rfl, rfl⟩

/-- **Every stream comes to an end**, or to an error, after no more tokens than it is good for. -/
theorem exists_end (s : Stream σ) :
    ∃ n ≤ s.remaining, ∀ t, (s.after n).next.outcome ≠ .ok (some t) := by
  induction hremaining : s.remaining using Nat.strong_induction_on generalizing s with
  | _ bound ih =>
    by_cases htoken : ∃ t, s.next.outcome = .ok (some t)
    · obtain ⟨t, ht⟩ := htoken
      have hlt := s.remaining_next_lt t ht
      obtain ⟨n, hn, hend⟩ := ih _ (hremaining ▸ hlt) s.next.next rfl
      exact ⟨n + 1, by omega, hend⟩
    · exact ⟨0, Nat.zero_le _, fun t ht => htoken ⟨t, ht⟩⟩

/-! ### At all times -/

/-- **The end of the input is absorbing, and reads can be split anywhere.**  Take any open stream,
whatever has been done to it.  Once it has answered with the end nothing is queued and no level is
open, and whatever is done then, short of closing the stream, it goes on to answer with the end; as
long as nothing is closed its source is not touched either.  Reading in pieces is reading at once:
it gives the same text, the same error if there is one, and the same stream.  If reading to the end
gives no error, then reading all, iterating and asking for one token after the other give the same
tokens and leave the same stream.  And the end, or an error, comes after finitely many tokens. -/
theorem end_absorbing (source : σ) (name : Option String) (l : Layout) (rules : List Rule)
    (ops : List Operation) :
    let s := ((start source name l rules).run ops).2
    s.closed = false →
      (s.next.outcome = .ok none → ∀ more : List Operation,
        let t := (s.next.next.run more).2
        t.engine.queue = [] ∧ t.engine.depth = 0 ∧ (s.next.next.run more).1 = [] ∧
        (t.closed = false → t.next = ⟨.ok none, t, []⟩) ∧
        ((∀ op ∈ more, op.closes = false) →
          t.closed = false ∧ t.source = s.next.next.source)) ∧
      (∀ sizes : List Nat, s.reads sizes = s.read sizes.sum) ∧
      (s.drain.2.outcome = .ok () → ∃ tokens last notices,
        s.read (-1) = ⟨.ok (Token.text tokens), last, notices⟩ ∧
        s.perform .iterate = (tokens, last) ∧
        s.outcomes (tokens.length + 1) = tokens.map (fun t => .ok (some t)) ++ [.ok none] ∧
        s.after (tokens.length + 1) = last) ∧
      ∃ n ≤ s.engine.potential + 5 * CharSource.remaining s.source,
        ∀ t, (s.after n).next.outcome ≠ .ok (some t) := by
  intro s hopen
  have hsound : s.Sound := sound_run source name l rules hopen
  refine ⟨?_, hsound.reads_eq_read, ?_, s.exists_end⟩
  · intro hend more t
    -- the answer was the end, so nothing is queued and no level is open
    obtain ⟨htokens, hover, hsame⟩ := run_of_over (hsound.over_next hend) more
    refine ⟨hover.queue_eq, hover.depth_eq, htokens, fun ht => next_of_over ht hover, ?_⟩
    intro hmore
    obtain ⟨hclosed, hsource⟩ := hsame hmore
    exact ⟨hclosed.trans hsound.next.closed_eq, hsource⟩
  · intro hok
    -- all of them are the same requests, one after the other
    rcases hdrain : s.drain with ⟨tokens, outcome, last, notices⟩
    obtain rfl : outcome = .ok () := by simpa [hdrain] using hok
    refine ⟨tokens, last, notices, ?_, ?_, outcomes_of_drain hdrain⟩
    · rw [read_eq_drain, hdrain]
      rfl
    · rw [perform, hdrain]

/-- A block, an early end, and a character behind it. -/
def cutScript : ScriptSource :=
  { answers := "a\n b".codePoints.map (fun c => .ok (some c)) ++ [.ok none, .ok (some 'x')] }

/-- The character behind the early end is not asked for, whatever conventions come, and the text
before it may be read in pieces. -/
theorem end_absorbing_cutScript :
    let s := start cutScript none {} []
    let t := (s.run [.read (.int 5)]).2
    let more : List Operation :=
      [.adopt (.newline (.text "x")), .next, .adopt (.line (.text "#")), .iterate]
    (t.closed = false ∧ t.next.outcome = .ok none ∧ ∀ op ∈ more, op.closes = false) ∧
      (t.next.next.run more).2.next.outcome = .ok none ∧
      (t.next.next.run more).2.source.answers = [.ok (some 'x')] ∧
      (s.reads [2, 0, 1, 9]).outcome = .ok "a\n>b<".codePoints ∧
      s.drain.2.outcome = .ok () ∧ (s.outcomes 6).getLast? = some (.ok none) := by
  intro s t more
  have hopen : t.closed = false := by decide +kernel
  have hend : t.next.outcome = .ok none := by decide +kernel
  have hmore : ∀ op ∈ more, op.closes = false := by simp [more, Operation.closes]
  have hdrain : s.drain.2.outcome = .ok () := by decide +kernel
  obtain ⟨hover, -, -, -⟩ := end_absorbing cutScript none {} [] [.read (.int 5)] hopen
  obtain ⟨-, hreads, hall, -⟩ := end_absorbing cutScript none {} [] [] rfl
  obtain ⟨-, -, -, hnext, hsame⟩ := hover hend more
  obtain ⟨hclosed, hsource⟩ := hsame hmore
  refine ⟨⟨hopen, hend, hmore⟩, ?_, ?_, ?_, hdrain, ?_⟩
  · rw [hnext hclosed]
  · rw [hsource]
    decide +kernel
  · have hpieces : s.reads [2, 0, 1, 9] = s.read 12 := hreads [2, 0, 1, 9]
    rw [hpieces]
    decide +kernel
  · obtain ⟨tokens, last, notices, hread, -, houtcomes, -⟩ := hall hdrain
    have htext : (s.read (-1)).outcome = .ok "a\n>b<".codePoints := by decide +kernel
    have hlength : tokens.length = 5 := by
      have htokens : s.read (-1) = ⟨.ok (Token.text tokens), last, notices⟩ := hread
      rw [htokens] at htext
      have := congrArg List.length (Except.ok.inj htext)
      simpa [Token.text, String.codePoints] using this
    have hlast : s.outcomes (tokens.length + 1) =
      tokens.map (fun t => .ok (some t)) ++ [.ok none] := houtcomes
    rw [hlength] at hlast
    rw [hlast, List.getLast?_concat]

end Stream

end Offside
