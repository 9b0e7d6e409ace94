import Offside.Proofs.Ending
import Offside.Proofs.Recording
import Offside.Transform

/-!
# Closing

A stream closes its source when it is closed itself, by hand or at the end of a block, and it does
so once: it remembers that it is closed, and then it passes nothing on.  From there on nothing is
read from it any more, not even what is still queued, and only its conventions can change.

How often a source was closed cannot be seen from it, so a count is put in between.  Nobody who
reads the source can tell the difference.

A transformation opens a stream for itself, and closes it whatever becomes of it.

## Main definitions

* `Tally` — a source with a count of what is asked of it.
* `Operation.shuts` — an operation closes the stream.
* `Engine.Frozen`, `Stream.Final` — what no longer changes, and what a closed stream does.

## Main results

* `Stream.perform_frame` — what an operation does to the source.
* `Stream.final_of_closed` — nothing is read from a closed stream.
* `Stream.closings_run` — **a stream closes its source once**.
* `Tally.source_transformNamed` — a transformation closes its source once.
-/

namespace Offside

/-! ### Counting what is asked of a source -/

/-- A source with a count of what is asked of it. -/
structure Tally (σ : Type) where
  /-- The source. -/
  source : σ
  /-- How often it was asked for a character. -/
  pulls : Nat := 0
  /-- How often it was closed. -/
  closings : Nat := 0

namespace Tally

variable {σ : Type} [CharSource σ]

instance : CharSource (Tally σ) where
  pull t :=
    let reply := CharSource.pull t.source
    ⟨reply.outcome, { t with source := reply.next, pulls := t.pulls + 1 }, reply.notices⟩
  close t :=
    let reply := CharSource.close t.source
    ⟨reply.outcome, { t with source := reply.next, closings := t.closings + 1 }, reply.notices⟩
  available t := CharSource.available t.source
  name t := CharSource.name t.source
  remaining t := CharSource.remaining t.source
  remaining_le t := CharSource.remaining_le t.source
  remaining_lt t := CharSource.remaining_lt t.source

/-- A count makes no difference for who reads the source. -/
theorem mirrors_source : CharSource.Mirrors (Tally.source (σ := σ)) := fun _ => rfl

@[simp] theorem closings_close (t : Tally σ) :
    (CharSource.close t).next.closings = t.closings + 1 := rfl

@[simp] theorem source_close (t : Tally σ) :
    (CharSource.close t).next.source = (CharSource.close t.source).next := rfl

/-- Asking for characters closes nothing. -/
@[simp] theorem closings_asked (t : Tally σ) (k : Nat) :
    (CharSource.asked t k).closings = t.closings := by
  induction k generalizing t with
  | zero => rfl
  | succ k ih => exact ih _

@[simp] theorem source_asked (t : Tally σ) (k : Nat) :
    (CharSource.asked t k).source = CharSource.asked t.source k := by
  induction k generalizing t with
  | zero => rfl
  | succ k ih => exact ih _

end Tally

/-- What holds of a source goes on to hold when it is asked for a character and when it is
closed. -/
structure CharSource.Kept {σ : Type} [CharSource σ] (P : σ → Prop) : Prop where
  pull : ∀ {source}, P source → P (CharSource.pull source).next
  close : ∀ {source}, P source → P (CharSource.close source).next

theorem CharSource.Kept.asked {σ : Type} [CharSource σ] {P : σ → Prop} {source : σ}
    (hP : CharSource.Kept P) (h : P source) (k : Nat) : P (CharSource.asked source k) := by
  induction k generalizing source with
  | zero => exact h
  | succ k ih => exact ih (hP.pull h)

/-! ### Operations that close -/

/-- An operation closes the stream, by hand or at the end of a block. -/
def Operation.shuts : Operation → Bool
  | .readAndClose _ => true
  | .close => true
  | _ => false

/-- An operation closes the source behind the back of the stream. -/
def Operation.bypasses : Operation → Bool
  | .closeSource => true
  | _ => false

/-- Two analyses differ in their conventions at most, and the same region is open. -/
structure Engine.Frozen (e e' : Engine) : Prop where
  stack_eq : e'.stack = e.stack
  queue_eq : e'.queue = e.queue
  active_eq : e'.tracker.active = e.tracker.active
  indents_eq : e'.indents = e.indents
  dedents_eq : e'.dedents = e.dedents
  exhausted_eq : e'.exhausted = e.exhausted

namespace Engine

variable {e e' e'' : Engine}

theorem Frozen.refl (e : Engine) : e.Frozen e := ⟨rfl, rfl, rfl, rfl, rfl, rfl⟩

theorem Frozen.trans (h : e.Frozen e') (h' : e'.Frozen e'') : e.Frozen e'' where
  stack_eq := h'.stack_eq.trans h.stack_eq
  queue_eq := h'.queue_eq.trans h.queue_eq
  active_eq := h'.active_eq.trans h.active_eq
  indents_eq := h'.indents_eq.trans h.indents_eq
  dedents_eq := h'.dedents_eq.trans h.dedents_eq
  exhausted_eq := h'.exhausted_eq.trans h.exhausted_eq

/-- A rule may be registered while a region is open, and the region stays open. -/
theorem active_adopt (e : Engine) (convention : Convention) :
    (e.adopt convention).tracker.active = e.tracker.active := by
  have hgetD {α : Type} {r : Except NotSingle α} {f : α → Engine}
      (hf : ∀ a, (f a).tracker.active = e.tracker.active) :
      ((r.map f).toOption.getD e).tracker.active = e.tracker.active :=
    getD_of_accepted (P := fun e' => e'.tracker.active = e.tracker.active) rfl fun a _ => hf a
  cases convention with
  | rule r => rfl
  | paired opening closing => exact hgetD fun _ => rfl
  | line opening => exact hgetD fun _ => rfl
  -- the other conventions do not concern the rules at all
  | _ => exact congrArg Tracker.active (tracker_adopt (by exact trivial) e)

/-- A change of the conventions freezes all else. -/
theorem frozen_adopt (e : Engine) (convention : Convention) : e.Frozen (e.adopt convention) := by
  have hactive := e.active_adopt convention
  obtain ⟨l, t, heq⟩ := e.alike_adopt convention
  rw [heq] at hactive ⊢
  exact ⟨rfl, rfl, hactive, rfl, rfl, rfl⟩

end Engine

namespace Stream

open Engine CharSource

variable {σ : Type} [CharSource σ] {s : Stream σ}

/-! ### What an operation does to the source -/

/-- **What an operation does to the source**: it asks for characters, and if it closes a stream that
is open it closes the source once. -/
theorem perform_frame (s : Stream σ) {op : Operation} (hop : op.bypasses = false) :
    (s.perform op).2.closed = (s.closed || op.shuts) ∧
      ∃ k, (s.closed = true → k = 0) ∧
        (s.perform op).2.source =
          if op.shuts && !s.closed then (CharSource.close (asked s.source k)).next
          else asked s.source k := by
  -- an operation that only asks, and one that closes the stream after it has asked
  have hread {t : Stream σ} (h : t.closed = s.closed ∧
      ∃ k, (s.closed = true → k = 0) ∧ t.source = asked s.source k) :
      t.closed = (s.closed || false) ∧ ∃ k, (s.closed = true → k = 0) ∧
        t.source = if false && !s.closed then (CharSource.close (asked s.source k)).next
          else asked s.source k := by
    simpa using h
  have hshut {t : Stream σ} (h : t.closed = s.closed ∧
      ∃ k, (s.closed = true → k = 0) ∧ t.source = asked s.source k) :
      t.close.next.closed = (s.closed || true) ∧ ∃ k, (s.closed = true → k = 0) ∧
        t.close.next.source = if true && !s.closed then (CharSource.close (asked s.source k)).next
          else asked s.source k := by
    obtain ⟨hclosed, k, hk, hsource⟩ := h
    obtain ⟨hshut, hclose⟩ := t.frame_close
    rw [hclosed, hsource] at hclose
    refine ⟨by simpa using hshut, k, hk, ?_⟩
    rw [hclose]
    cases s.closed <;> rfl
  cases op with
  | next => exact hread s.frame_next
  | read size => exact hread (s.frame_readValue size)
  | iterate =>
    rw [Stream.perform, s.drain_eq_collect (Nat.lt_succ_self _)]
    exact hread (s.frame_collect _)
  | readAndClose size => exact hshut (s.frame_readValue size)
  | close => exact hshut ⟨rfl, 0, fun _ => rfl, rfl⟩
  | closeSource => simp [Operation.bypasses] at hop
  | adopt convention => exact hread ⟨rfl, 0, fun _ => rfl, rfl⟩

/-- What is kept by requests and by closing is kept by an operation. -/
theorem perform_kept {P : σ → Prop} (hP : Kept P) (h : P s.source) {op : Operation}
    (hop : op.bypasses = false) : P (s.perform op).2.source := by
  obtain ⟨-, k, -, hsource⟩ := s.perform_frame hop
  rw [hsource]
  split
  · exact hP.close (hP.asked h k)
  · exact hP.asked h k

/-! ### A closed stream -/

theorem collect_of_closed (h : s.closed = true) (n : Nat) :
    s.collect (n + 1) = ([], ⟨.error .closedStream, s, []⟩) := by
  rw [Stream.collect, next_of_closed h]

theorem drain_of_closed (h : s.closed = true) :
    s.drain = ([], ⟨.error .closedStream, s, []⟩) := by
  rw [drain_eq, next_of_closed h]
  rfl

theorem read_of_closed (h : s.closed = true) {n : Int} (hn : n ≠ 0) :
    s.read n = ⟨.error .closedStream, s, []⟩ := by
  rw [read]
  by_cases hneg : n < 0
  · rw [if_pos hneg, drain_of_closed h]
    rfl
  · obtain ⟨m, hm⟩ : ∃ m, n.toNat = m + 1 := ⟨n.toNat - 1, by omega⟩
    rw [if_neg hneg, hm, collect_of_closed h]
    rfl

/-- Reading a closed stream hands out nothing and leaves it alone, whatever the size is. -/
theorem reading_of_closed (h : s.closed = true) (size : Value) :
    (s.reading size).1 = [] ∧ (s.readValue size).next = s := by
  obtain ⟨htokens, hnext⟩ := s.reading_eq_collect size
  rw [htokens, hnext]
  cases s.countOf size with
  | zero => exact ⟨rfl, rfl⟩
  | succ n =>
    rw [collect_of_closed h]
    exact ⟨rfl, rfl⟩

theorem close_of_closed (h : s.closed = true) : s.close = ⟨.ok (), s, []⟩ := by
  rw [Stream.close, if_pos h]

/-- An operation changes the conventions of a closed stream at most. -/
theorem perform_of_closed (h : s.closed = true) {op : Operation} (hop : op.bypasses = false) :
    ∃ e, s.engine.Frozen e ∧ s.perform op = ([], { s with engine := e }) := by
  have hsame : s.engine.Frozen s.engine := .refl _
  cases op with
  | next =>
    refine ⟨s.engine, hsame, ?_⟩
    rw [perform, next_of_closed h]
    rfl
  | read size =>
    obtain ⟨htokens, hnext⟩ := reading_of_closed h size
    refine ⟨s.engine, hsame, ?_⟩
    rw [perform, htokens, hnext]
  | iterate =>
    refine ⟨s.engine, hsame, ?_⟩
    rw [perform, drain_of_closed h]
  | readAndClose size =>
    obtain ⟨htokens, hnext⟩ := reading_of_closed h size
    have hclosing : (closing (s.readValue size)).next = s := by
      show (s.readValue size).next.close.next = s
      rw [hnext, close_of_closed h]
    refine ⟨s.engine, hsame, ?_⟩
    rw [perform, htokens, hclosing]
  | close =>
    refine ⟨s.engine, hsame, ?_⟩
    rw [perform, close_of_closed h]
  | closeSource => simp [Operation.bypasses] at hop
  | adopt convention => exact ⟨_, s.engine.frozen_adopt convention, rfl⟩

/-- From then on reading is refused, and nothing but conventions changes. -/
structure Final (s : Stream σ) : Prop where
  closed_eq : s.closed = true
  next_eq : s.next = ⟨.error .closedStream, s, []⟩
  read_eq : ∀ (size : Value) (n : Int), sizeOf? size = some n → n ≠ 0 →
    s.readValue size = ⟨.error .closedStream, s, []⟩
  drain_eq : s.drain = ([], ⟨.error .closedStream, s, []⟩)
  run_eq : ∀ ops : List Operation, (∀ op ∈ ops, op.bypasses = false) →
    ∃ e, s.engine.Frozen e ∧ s.run ops = ([], { s with engine := e })

/-- **Nothing is read from a closed stream.** -/
theorem final_of_closed (h : s.closed = true) : s.Final where
  closed_eq := h
  next_eq := next_of_closed h
  read_eq size n hsize hn := by
    rw [readValue, hsize]
    exact read_of_closed h hn
  drain_eq := drain_of_closed h
  run_eq ops hops := by
    induction ops generalizing s with
    | nil => exact ⟨s.engine, .refl _, rfl⟩
    | cons op ops ih =>
      obtain ⟨e, he, hperform⟩ := perform_of_closed h (hops op List.mem_cons_self)
      obtain ⟨e', he', hrun⟩ := ih (s := { s with engine := e }) h
        fun op' hop' => hops op' (List.mem_cons_of_mem _ hop')
      refine ⟨e', he.trans he', ?_⟩
      simp only [run, hperform, hrun]
      rfl

/-! ### A stream over a tally -/

/-- The stream over its source with a count. -/
def tallied {σ : Type} (s : Stream σ) : Stream (Tally σ) :=
  s.mapSource fun source => { source := source }

/-- **A count makes no difference**: the tokens are the same, and so is the stream afterwards. -/
theorem run_tallied (s : Stream σ) (ops : List Operation) :
    s.run ops = ((s.tallied.run ops).1, (s.tallied.run ops).2.mapSource Tally.source) :=
  run_mapSource Tally.mirrors_source (fun _ => rfl) s.tallied ops

/-- **A stream closes its source once**, with the first operation that closes the stream. -/
theorem closings_run (s : Stream (Tally σ)) {ops : List Operation}
    (hops : ∀ op ∈ ops, op.bypasses = false) :
    (s.run ops).2.closed = (s.closed || ops.any Operation.shuts) ∧
      (s.run ops).2.source.closings =
        s.source.closings + if !s.closed && ops.any Operation.shuts then 1 else 0 := by
  induction ops generalizing s with
  | nil => simp [run]
  | cons op ops ih =>
    obtain ⟨hclosed, k, -, hsource⟩ := s.perform_frame (hops op List.mem_cons_self)
    obtain ⟨hclosed', hclosings⟩ := ih (s.perform op).2
      fun op' hop' => hops op' (List.mem_cons_of_mem _ hop')
    rw [hclosed] at hclosed' hclosings
    rw [hsource] at hclosings
    refine ⟨by simpa [run, Bool.or_assoc] using hclosed', ?_⟩
    show ((s.perform op).2.run ops).2.source.closings = _
    rw [hclosings]
    cases s.closed with
    | true => simp
    | false => cases hshuts : op.shuts <;> simp [hshuts]

end Stream

/-! ### Transforming -/

section Transforming

open CharSource

variable {σ : Type} [CharSource σ]

/-- A transformation asks its source for characters and closes it. -/
theorem exists_source_transform (source : σ) (o : Options) :
    ∃ k, (transform source o).source = (CharSource.close (asked source k)).next := by
  rw [transform]
  cases (Stream.ofSource source none).engine.configure o with
  | error e => exact ⟨0, rfl⟩
  | ok engine =>
    let s : Stream σ := { Stream.ofSource source none with engine := engine }
    obtain ⟨hclosed, k, -, hsource⟩ := s.frame_readValue (.int (-1))
    obtain ⟨-, hclose⟩ := (s.readValue (.int (-1))).next.frame_close
    have hopen : (s.readValue (.int (-1))).next.closed = false := hclosed
    rw [hopen, hsource] at hclose
    exact ⟨k, hclose⟩

theorem transform_mapSource {τ : Type} [CharSource τ] {f : σ → τ} (hf : Mirrors f)
    (hclose : MirrorsClosing f)
    (hname : ∀ source, CharSource.name (f source) = CharSource.name source)
    (source : σ) (o : Options) :
    (transform (f source) o).outcome = (transform source o).outcome ∧
      (transform (f source) o).source = f (transform source o).source := by
  have hstream : Stream.ofSource (f source) none = (Stream.ofSource source none).mapSource f := by
    simp only [Stream.ofSource, Stream.mapSource, hname]
  have hengine : ((Stream.ofSource source none).mapSource f).engine =
      (Stream.ofSource source none).engine := rfl
  rw [transform, transform, hstream, hengine]
  cases (Stream.ofSource source none).engine.configure o with
  | error e =>
    simp only [Stream.close_mapSource hclose, true_and]
    rfl
  | ok engine =>
    let s : Stream σ := { Stream.ofSource source none with engine := engine }
    have hread : (s.mapSource f).readAndClose (-1) = _ :=
      (congrArg Stream.closing (Stream.readValue_mapSource hf s (.int (-1)))).trans
        (Stream.closing_mapSource hclose (s.readValue (.int (-1))))
    exact ⟨congrArg (fun r => r.outcome.mapError TransformError.read) hread,
      congrArg (fun r => r.next.source) hread⟩

/-- The names of options are all known, or the unknown ones are refused. -/
theorem ofEntries_cases (entries : List (String × Value)) :
    (∃ o, Options.ofEntries entries = .ok o ∧
        ∀ entry ∈ entries, Options.known entry.1 = true) ∨
      ∃ names, Options.ofEntries entries = .error (.unknown names) ∧
        ∃ entry ∈ entries, Options.known entry.1 = false := by
  rw [Options.ofEntries]
  rcases hnames : (entries.map Prod.fst).filter (!Options.known ·) with _ | ⟨name, names⟩
  · refine .inl ⟨_, rfl, fun entry hentry => ?_⟩
    have hknown := List.filter_eq_nil_iff.1 hnames entry.1 (List.mem_map_of_mem hentry)
    simpa using hknown
  · have hname : name ∈ (entries.map Prod.fst).filter (!Options.known ·) := by simp [hnames]
    obtain ⟨hmem, hunknown⟩ := List.mem_filter.1 hname
    obtain ⟨entry, hentry, rfl⟩ := List.mem_map.1 hmem
    exact .inr ⟨_, rfl, entry, hentry, by simpa using hunknown⟩

/-- **A transformation closes its source once**, whatever becomes of it, and unless all names of
the options are known it does not touch the source.  A count makes no difference. -/
theorem Tally.source_transformNamed (source : σ) (entries : List (String × Value)) :
    let counted : Tally σ := { source := source }
    let done := transformNamed counted entries
    (transformNamed source entries).outcome = done.outcome ∧
      (transformNamed source entries).source = done.source.source ∧
      ((∀ entry ∈ entries, Options.known entry.1 = true) → done.source.closings = 1) ∧
      ((∃ entry ∈ entries, Options.known entry.1 = false) →
        done.source = counted ∧ ∃ names, done.outcome = .error (.option (.unknown names))) := by
  intro counted done
  rcases ofEntries_cases entries with ⟨o, ho, hknown⟩ | ⟨names, hnames, hunknown⟩
  · have hdone : done = transform counted o := by simp only [done, transformNamed, ho]
    have hplain : transformNamed source entries = transform source o := by
      simp only [transformNamed, ho]
    obtain ⟨houtcome, hsource⟩ :=
      transform_mapSource Tally.mirrors_source (fun _ => rfl) (fun _ => rfl) counted o
    obtain ⟨k, hclosed⟩ := exists_source_transform counted o
    rw [hdone, hplain]
    refine ⟨houtcome, hsource, fun _ => ?_, ?_⟩
    · rw [hclosed, Tally.closings_close, Tally.closings_asked]
    · rintro ⟨entry, hentry, hunknown⟩
      simp [hknown entry hentry] at hunknown
  · have hdone : done = ⟨.error (.option (.unknown names)), counted, []⟩ := by
      simp only [done, transformNamed, hnames]
    have hplain : transformNamed source entries =
        ⟨.error (.option (.unknown names)), source, []⟩ := by
      simp only [transformNamed, hnames]
    rw [hdone, hplain]
    refine ⟨rfl, rfl, ?_, fun _ => ⟨rfl, names, rfl⟩⟩
    intro hknown
    obtain ⟨entry, hentry, hentry'⟩ := hunknown
    simp [hknown entry hentry] at hentry'

end Transforming

end Offside
