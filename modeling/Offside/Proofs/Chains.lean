import Offside.Proofs.Closing

/-!
# Chains of streams

A stream may be the source of another stream.  Then closing the outer one closes the inner one,
which closes its own source in turn, all the way down.  Any of the streams may be used by itself
meanwhile, and closed before the others.  But a stream that is asked for characters closes nothing,
so at all times each stream of the chain has closed its source once if it is closed, and not at all
otherwise; and below a closed stream all streams are closed.

There is a count between each stream and its source, and a chain without them does the same.

## Main definitions

* `Chain`, `Chain.run` — streams over streams, and operations on any of them.
* `Chain.Guarded`, `Chain.Shut` — what holds of a chain at all times, and below a closed stream.
* `Plain` — a chain without counts.

## Main results

* `Chain.guarded_act`, `Chain.guarded_run` — each source of a chain is closed once.
* `Chain.shut_of_mem` — below a stream that has been closed all are closed.
* `Plain.run_ofChain` — counts make no difference.
* `closed_once` — **closing is final, happens once, and reaches through chains**.
-/

namespace Offside

/-! ### Streams over streams -/

/-- `n` streams, each over the next and with a count in between, and a source below them. -/
def Chain (σ : Type) : Nat → Type
  | 0 => σ
  | n + 1 => Stream (Tally (Chain σ n))

namespace Chain

open CharSource

variable {σ : Type}

instance charSource [CharSource σ] : (n : Nat) → CharSource (Chain σ n)
  | 0 => inferInstanceAs (CharSource σ)
  | n + 1 =>
    letI : CharSource (Chain σ n) := charSource n
    inferInstanceAs (CharSource (Stream (Tally (Chain σ n))))

/-- All streams are open, and no source has been closed. -/
def Fresh : (n : Nat) → Chain σ n → Prop
  | 0, _ => True
  | n + 1, (s : Stream (Tally (Chain σ n))) =>
    s.closed = false ∧ s.source.closings = 0 ∧ Fresh n s.source.source

/-- The streams from the `j`-th on are closed, and each of them has closed its source once. -/
def Shut : (n : Nat) → Nat → Chain σ n → Prop
  | 0, _, _ => True
  | n + 1, 0, (s : Stream (Tally (Chain σ n))) =>
    s.closed = true ∧ s.source.closings = 1 ∧ Shut n 0 s.source.source
  | n + 1, j + 1, (s : Stream (Tally (Chain σ n))) => Shut n j s.source.source

/-- Each stream has closed its source once if it is closed, and not at all otherwise, and below a
closed stream all are closed. -/
def Guarded : (n : Nat) → Chain σ n → Prop
  | 0, _ => True
  | n + 1, (s : Stream (Tally (Chain σ n))) =>
    s.source.closings = (if s.closed then 1 else 0) ∧
      (s.closed = true → Shut n 0 s.source.source) ∧ Guarded n s.source.source

theorem Fresh.guarded {n : Nat} {c : Chain σ n} (h : Fresh n c) : Guarded n c := by
  induction n with
  | zero => trivial
  | succ n ih =>
    obtain ⟨hopen, hclosings, hrest⟩ := h
    refine ⟨?_, ?_, ih hrest⟩
    · rw [hclosings, hopen]
      rfl
    · intro hclosed
      rw [hopen] at hclosed
      cases hclosed

variable [CharSource σ]

/-- An operation on one of the streams, counted from the outermost. -/
def act : (n : Nat) → Chain σ n → Nat → Operation → Chain σ n
  | 0, source, _, _ => source
  | _ + 1, (s : Stream (Tally (Chain σ _))), 0, op => (s.perform op).2
  | n + 1, (s : Stream (Tally (Chain σ n))), k + 1, op =>
    { s with source := { s.source with source := act n s.source.source k op } }

/-- Operations one after the other, each on one of the streams. -/
def run (n : Nat) (c : Chain σ n) (ops : List (Nat × Operation)) : Chain σ n :=
  ops.foldl (fun c op => act n c op.1 op.2) c

/-- Nothing that is asked of a chain opens a closed stream. -/
theorem kept_shut (n j : Nat) : Kept fun c : Chain σ n => Shut n j c := by
  induction n generalizing j with
  | zero => exact ⟨fun _ => trivial, fun _ => trivial⟩
  | succ n ih =>
    constructor
    · intro (s : Stream (Tally (Chain σ n))) h
      obtain ⟨-, k, hk, hsource⟩ := s.frame_next
      show Shut (n + 1) j s.next.next
      cases j with
      | zero =>
        rw [Stream.next_of_closed h.1]
        exact h
      | succ j =>
        show Shut n j s.next.next.source.source
        rw [hsource, Tally.source_asked]
        exact (ih j).asked h k
    · intro (s : Stream (Tally (Chain σ n))) h
      obtain ⟨-, hsource⟩ := s.frame_close
      show Shut (n + 1) j s.close.next
      cases j with
      | zero =>
        rw [Stream.close_of_closed h.1]
        exact h
      | succ j =>
        show Shut n j s.close.next.source.source
        rw [hsource]
        split
        · exact h
        · exact (ih j).close h

/-- **A chain that is closed is closed all the way down**, and it stays guarded. -/
theorem shut_close {n : Nat} {c : Chain σ n} (h : Guarded n c) :
    Guarded n (CharSource.close c).next ∧ Shut n 0 (CharSource.close c).next := by
  induction n with
  | zero => exact ⟨trivial, trivial⟩
  | succ n ih =>
    obtain ⟨hclosings, hbelow, hrest⟩ := h
    let s : Stream (Tally (Chain σ n)) := c
    show Guarded (n + 1) s.close.next ∧ Shut (n + 1) 0 s.close.next
    cases hclosed : s.closed with
    | true =>
      have hone : s.source.closings = 1 := by rw [hclosings, if_pos hclosed]
      rw [Stream.close_of_closed hclosed]
      exact ⟨⟨hclosings, hbelow, hrest⟩, hclosed, hone, hbelow hclosed⟩
    | false =>
      -- the stream is closed now, and so is the chain below it
      obtain ⟨hguarded, hshut⟩ := ih hrest
      obtain ⟨hshuts, hsource⟩ := s.frame_close
      rw [hclosed] at hsource
      have hzero : s.source.closings = 0 := by rw [hclosings, if_neg (by simp [s, hclosed])]
      have hone : s.close.next.source.closings = 1 := by
        rw [hsource]
        exact congrArg (· + 1) hzero
      have hinner : s.close.next.source.source = (CharSource.close s.source.source).next := by
        rw [hsource]
        rfl
      rw [← hinner] at hguarded hshut
      exact ⟨⟨by rw [hone, if_pos hshuts], fun _ => hshut, hguarded⟩, hshuts, hone, hshut⟩

theorem kept_guarded (n : Nat) : Kept fun c : Chain σ n => Guarded n c := by
  induction n with
  | zero => exact ⟨fun _ => trivial, fun _ => trivial⟩
  | succ n ih =>
    refine ⟨?_, fun h => (shut_close h).1⟩
    intro (s : Stream (Tally (Chain σ n))) h
    obtain ⟨hclosed, k, hk, hsource⟩ := s.frame_next
    obtain ⟨hclosings, hbelow, hrest⟩ := h
    show Guarded (n + 1) s.next.next
    refine ⟨?_, ?_, ?_⟩
    · rw [hsource, hclosed, Tally.closings_asked]
      exact hclosings
    · intro hshut
      rw [hclosed] at hshut
      rw [Stream.next_of_closed hshut]
      exact hbelow hshut
    · rw [hsource, Tally.source_asked]
      exact ih.asked hrest k

/-! ### Operations on a chain -/

/-- What is shut stays shut, whichever stream is used. -/
theorem shut_act {n j : Nat} {c : Chain σ n} (h : Shut n j c) (k : Nat) {op : Operation}
    (hop : op.bypasses = false) : Shut n j (act n c k op) := by
  induction n generalizing j k with
  | zero => trivial
  | succ n ih =>
    let s : Stream (Tally (Chain σ n)) := c
    cases k with
    | zero =>
      show Shut (n + 1) j (s.perform op).2
      cases j with
      | zero =>
        obtain ⟨e, -, hperform⟩ := Stream.perform_of_closed (s := s) h.1 hop
        rw [hperform]
        exact h
      | succ j =>
        have hkept : Kept fun t : Tally (Chain σ n) => Shut n j t.source :=
          ⟨(kept_shut n j).pull, (kept_shut n j).close⟩
        exact s.perform_kept hkept h hop
    | succ k =>
      cases j with
      | zero => exact ⟨h.1, h.2.1, ih h.2.2 k⟩
      | succ j => exact ih (j := j) h k

/-- What is done to the outermost stream keeps the chain guarded, and if it closes the stream
everything is closed. -/
theorem guarded_perform {n : Nat} {s : Stream (Tally (Chain σ n))}
    (h : Guarded (σ := σ) (n + 1) s) {op : Operation} (hop : op.bypasses = false) :
    Guarded (σ := σ) (n + 1) (s.perform op).2 ∧
      (op.shuts = true → Shut (σ := σ) (n + 1) 0 (s.perform op).2) := by
  obtain ⟨hclosings, hbelow, hrest⟩ := h
  cases hclosed : s.closed with
  | true =>
    -- a closed stream leaves the chain below alone
    obtain ⟨e, -, hperform⟩ := Stream.perform_of_closed hclosed hop
    have hone : s.source.closings = 1 := by rw [hclosings, if_pos hclosed]
    rw [hperform]
    exact ⟨⟨hclosings, hbelow, hrest⟩, fun _ => ⟨hclosed, hone, hbelow hclosed⟩⟩
  | false =>
    have hzero : s.source.closings = 0 := by rw [hclosings, if_neg (by simp [hclosed])]
    obtain ⟨hclosed', m, -, hsource⟩ := s.perform_frame hop
    rw [hclosed] at hclosed' hsource
    have hasked : Guarded n (asked s.source.source m) := (kept_guarded n).asked hrest m
    cases hshuts : op.shuts with
    | false =>
      -- the source is asked at most, and the stream stays open
      simp only [hshuts, Bool.or_self] at hclosed'
      simp only [hshuts, Bool.false_and, Bool.false_eq_true, if_false] at hsource
      refine ⟨⟨?_, ?_, ?_⟩, by simp⟩
      · rw [hsource, hclosed', Tally.closings_asked, hzero]
        rfl
      · intro hshut
        rw [hclosed'] at hshut
        cases hshut
      · rw [hsource, Tally.source_asked]
        exact hasked
    | true =>
      -- the source is closed after it was asked, so the chain below is shut
      obtain ⟨hguarded, hshut⟩ := shut_close hasked
      simp only [hshuts, Bool.or_true] at hclosed'
      simp only [hshuts, Bool.not_false, Bool.and_self, if_true] at hsource
      have hone : (s.perform op).2.source.closings = 1 := by
        rw [hsource, Tally.closings_close, Tally.closings_asked, hzero]
      have hinner : (s.perform op).2.source.source =
          (CharSource.close (asked s.source.source m)).next := by
        rw [hsource, Tally.source_close, Tally.source_asked]
      rw [← hinner] at hguarded hshut
      exact ⟨⟨by rw [hone, if_pos hclosed'], fun _ => hshut, hguarded⟩,
        fun _ => ⟨hclosed', hone, hshut⟩⟩

/-- **What is done to one stream of a chain keeps the chain guarded**, and if it closes the stream
everything below it is closed. -/
theorem guarded_act {n : Nat} {c : Chain σ n} (h : Guarded n c) (k : Nat) {op : Operation}
    (hop : op.bypasses = false) :
    Guarded n (act n c k op) ∧ (op.shuts = true → Shut n k (act n c k op)) := by
  induction n generalizing k with
  | zero => exact ⟨trivial, fun _ => trivial⟩
  | succ n ih =>
    cases k with
    | zero => exact guarded_perform h hop
    | succ k =>
      obtain ⟨hclosings, hbelow, hrest⟩ := h
      obtain ⟨hguarded, hshut⟩ := ih hrest k
      refine ⟨⟨hclosings, fun hclosed => ?_, hguarded⟩, hshut⟩
      exact shut_act (hbelow hclosed) k hop

theorem guarded_run {n : Nat} {c : Chain σ n} (h : Guarded n c) {ops : List (Nat × Operation)}
    (hops : ∀ op ∈ ops, op.2.bypasses = false) : Guarded n (run n c ops) := by
  induction ops generalizing c with
  | nil => exact h
  | cons op ops ih =>
    apply ih (guarded_act h op.1 (hops op List.mem_cons_self)).1
    exact fun op' hop' => hops op' (List.mem_cons_of_mem _ hop')

theorem shut_run {n j : Nat} {c : Chain σ n} (h : Shut n j c) {ops : List (Nat × Operation)}
    (hops : ∀ op ∈ ops, op.2.bypasses = false) : Shut n j (run n c ops) := by
  induction ops generalizing c with
  | nil => exact h
  | cons op ops ih =>
    apply ih (shut_act h op.1 (hops op List.mem_cons_self))
    exact fun op' hop' => hops op' (List.mem_cons_of_mem _ hop')

/-- **Once a stream of the chain has been closed, all below it are closed.** -/
theorem shut_of_mem {n j : Nat} {c : Chain σ n} (h : Guarded n c) {ops : List (Nat × Operation)}
    (hops : ∀ op ∈ ops, op.2.bypasses = false) {op : Operation} (hmem : (j, op) ∈ ops)
    (hshuts : op.shuts = true) : Shut n j (run n c ops) := by
  obtain ⟨before, later, rfl⟩ := List.append_of_mem hmem
  have hbefore : ∀ op' ∈ before, op'.2.bypasses = false := fun op' hop' => hops op' (by simp [hop'])
  have hlater : ∀ op' ∈ later, op'.2.bypasses = false := fun op' hop' => hops op' (by simp [hop'])
  have hclosed : Shut n j (act n (run n c before) j op) :=
    (guarded_act (guarded_run h hbefore) j (hops _ hmem)).2 hshuts
  have hrun : run n c (before ++ (j, op) :: later) =
      run n (act n (run n c before) j op) later := List.foldl_append
  rw [hrun]
  exact shut_run hclosed hlater

end Chain

/-! ### Chains without counts -/

/-- `n` streams, each over the next, and a source below them. -/
def Plain (σ : Type) : Nat → Type
  | 0 => σ
  | n + 1 => Stream (Plain σ n)

namespace Plain

open CharSource

variable {σ : Type}

instance charSource [CharSource σ] : (n : Nat) → CharSource (Plain σ n)
  | 0 => inferInstanceAs (CharSource σ)
  | n + 1 =>
    letI : CharSource (Plain σ n) := charSource n
    inferInstanceAs (CharSource (Stream (Plain σ n)))

/-- The chain without its counts. -/
def ofChain : (n : Nat) → Chain σ n → Plain σ n
  | 0, source => source
  | n + 1, (s : Stream (Tally (Chain σ n))) => s.mapSource fun t => ofChain n t.source

variable [CharSource σ]

/-- An operation on one of the streams, counted from the outermost. -/
def act : (n : Nat) → Plain σ n → Nat → Operation → Plain σ n
  | 0, source, _, _ => source
  | _ + 1, (s : Stream (Plain σ _)), 0, op => (s.perform op).2
  | n + 1, (s : Stream (Plain σ n)), k + 1, op => { s with source := act n s.source k op }

/-- Operations one after the other, each on one of the streams. -/
def run (n : Nat) (c : Plain σ n) (ops : List (Nat × Operation)) : Plain σ n :=
  ops.foldl (fun c op => act n c op.1 op.2) c

/-- A chain answers alike with counts and without, and is closed alike. -/
theorem mirrors_ofChain (n : Nat) :
    Mirrors (ofChain (σ := σ) n) ∧
      MirrorsClosing (ofChain (σ := σ) n) := by
  induction n with
  | zero => exact ⟨fun _ => rfl, fun _ => rfl⟩
  | succ n ih =>
    obtain ⟨hpull, hclose⟩ := ih
    have hpull' : Mirrors fun t : Tally (Chain σ n) => ofChain n t.source :=
      fun t => hpull t.source
    refine ⟨?_, fun c => Stream.close_mapSource (fun t => hclose t.source) c⟩
    intro (s : Stream (Tally (Chain σ n)))
    show (s.mapSource fun t => ofChain n t.source).nextChar = _
    rw [Stream.nextChar, Stream.next_mapSource hpull']
    rfl

theorem act_ofChain {n : Nat} (c : Chain σ n) (k : Nat) (op : Operation) :
    act n (ofChain n c) k op = ofChain n (Chain.act n c k op) := by
  induction n generalizing k with
  | zero => rfl
  | succ n ih =>
    let s : Stream (Tally (Chain σ n)) := c
    cases k with
    | zero =>
      obtain ⟨hpull, hclose⟩ := mirrors_ofChain (σ := σ) n
      have hpull' : Mirrors fun t : Tally (Chain σ n) => ofChain n t.source :=
        fun t => hpull t.source
      exact congrArg Prod.snd (Stream.perform_mapSource hpull' (fun t => hclose t.source) s op)
    | succ k =>
      exact congrArg (fun source => ({ s.mapSource fun t => ofChain n t.source with
        source := source } : Stream (Plain σ n))) (ih s.source.source k)

/-- **Counts make no difference**: whatever is done to a chain comes to the same without them. -/
theorem run_ofChain {n : Nat} (c : Chain σ n) (ops : List (Nat × Operation)) :
    run n (ofChain n c) ops = ofChain n (Chain.run n c ops) := by
  induction ops generalizing c with
  | nil => rfl
  | cons op ops ih =>
    show run n (act n (ofChain n c) op.1 op.2) ops = _
    rw [act_ofChain, ih]
    rfl

end Plain

/-! ### The whole -/

/-- **Closing is final, happens once, and reaches through chains.**  An open stream closes its
source once if something is done that closes the stream, and not at all otherwise; that its source
is counted makes no difference.  Once a stream is closed nothing is read from it, its source is left
alone, and only its conventions change.  In a chain of streams, whichever of them are used, each
closes its source once if it is closed and not at all otherwise, and if one of them is closed so are
all below it.  A transformation closes its source once, whether it succeeds or not, and does not
touch it if the name of an option is unknown. -/
theorem closed_once {σ : Type} [CharSource σ] :
    (∀ (s : Stream σ) (ops : List Operation), s.closed = false →
      (∀ op ∈ ops, op.bypasses = false) →
      let t := (s.tallied.run ops).2
      s.run ops = ((s.tallied.run ops).1, t.mapSource Tally.source) ∧
      t.closed = ops.any Operation.shuts ∧
      t.source.closings = (if ops.any Operation.shuts then 1 else 0) ∧
      (ops.any Operation.shuts = true → t.Final)) ∧
    (∀ s : Stream σ, s.closed = true → s.Final) ∧
    (∀ (n : Nat) (c : Chain σ n) (ops : List (Nat × Operation)), Chain.Fresh n c →
      (∀ op ∈ ops, op.2.bypasses = false) →
      Plain.run n (Plain.ofChain n c) ops = Plain.ofChain n (Chain.run n c ops) ∧
      Chain.Guarded n (Chain.run n c ops) ∧
      ∀ j op, (j, op) ∈ ops → op.shuts = true → Chain.Shut n j (Chain.run n c ops)) ∧
    ∀ (source : σ) (entries : List (String × Value)),
      let counted : Tally σ := { source := source }
      let done := transformNamed counted entries
      (transformNamed source entries).outcome = done.outcome ∧
      (transformNamed source entries).source = done.source.source ∧
      ((∀ entry ∈ entries, Options.known entry.1 = true) → done.source.closings = 1) ∧
      ((∃ entry ∈ entries, Options.known entry.1 = false) →
        done.source = counted ∧
          ∃ names, done.outcome = .error (.option (.unknown names))) := by
  refine ⟨fun s ops hopen hops => ?_, fun s => Stream.final_of_closed,
    fun n c ops hfresh hops => ?_,
    fun source entries => Tally.source_transformNamed source entries⟩
  · intro t
    -- the counted stream does what the stream does, and its counter tells
    obtain ⟨hclosed, hclosings⟩ := s.tallied.closings_run hops
    have hopen' : s.tallied.closed = false := hopen
    have hzero : s.tallied.source.closings = 0 := rfl
    rw [hopen'] at hclosed hclosings
    rw [hzero] at hclosings
    have hshut : t.closed = ops.any Operation.shuts := by simpa using hclosed
    refine ⟨s.run_tallied ops, hshut, by simpa using hclosings, fun hany => ?_⟩
    exact Stream.final_of_closed (hshut.trans hany)
  · exact ⟨Plain.run_ofChain c ops, Chain.guarded_run hfresh.guarded hops,
      fun j op hmem hshuts => Chain.shut_of_mem hfresh.guarded hops hmem hshuts⟩

/-- A stream over a stream over a text with two blocks. -/
def nestedBlocks : Chain TextSource 2 :=
  Stream.ofSource (σ := Tally (Stream (Tally TextSource)))
    { source := Stream.ofSource { source := { rest := "a\n b\n  c\n d".codePoints } } none } none

/-- A stream is closed by hand with a character pending, and once more; the inner one of two
streams is closed before the outer one, which is closed at the end of a block that fails; and a
transformation with a bad value, or with a name that does not exist. -/
theorem closed_once_nestedBlocks :
    let s : Stream TextSource := Stream.ofSource { rest := "a\n b".codePoints } none
    let ops : List Operation := [.read (.int 3), .close, .adopt (.newline (.text "x")), .close]
    let acts : List (Nat × Operation) :=
      [(1, .next), (0, .next), (1, .close), (0, .readAndClose (.int 9)), (1, .close)]
    let misspelt : List (String × Value) := [("newline_char", .text "ab")]
    let unknown : List (String × Value) := [("newline_char", .text "x"), ("newline", .text "x")]
    (s.closed = false ∧ (∀ op ∈ ops, op.bypasses = false) ∧ ops.any Operation.shuts = true) ∧
      (s.tallied.run ops).2.source.closings = 1 ∧
      (s.tallied.run ops).2.engine.queue.length = 1 ∧
      (s.tallied.run ops).2.next.outcome = .error .closedStream ∧
      (Chain.Fresh 2 nestedBlocks ∧ ∀ op ∈ acts, op.2.bypasses = false) ∧
      Chain.Shut 2 0 (Chain.run 2 nestedBlocks acts) ∧
      (∀ entry ∈ misspelt, Options.known entry.1 = true) ∧
      (transformNamed ({ source := s.source } : Tally TextSource) misspelt).source.closings = 1 ∧
      (∃ entry ∈ unknown, Options.known entry.1 = false) ∧
      (transformNamed ({ source := s.source } : Tally TextSource) unknown).source.pulls = 0 := by
  intro s ops acts misspelt unknown
  have hops : ∀ op ∈ ops, op.bypasses = false := by simp [ops, Operation.bypasses]
  have hacts : ∀ op ∈ acts, op.2.bypasses = false := by simp [acts, Operation.bypasses]
  have hshuts : ops.any Operation.shuts = true := by decide
  have hfresh : Chain.Fresh 2 nestedBlocks := ⟨rfl, rfl, rfl, rfl, trivial⟩
  have hmisspelt : ∀ entry ∈ misspelt, Options.known entry.1 = true := by decide +kernel
  have hunknown : ∃ entry ∈ unknown, Options.known entry.1 = false := by decide +kernel
  obtain ⟨hstream, -, hchain, htransform⟩ := closed_once (σ := TextSource)
  obtain ⟨-, -, hclosings, hfinal⟩ := hstream s ops rfl hops
  obtain ⟨-, -, hshut⟩ := hchain 2 nestedBlocks acts hfresh hacts
  obtain ⟨-, -, hclosed, -⟩ := htransform s.source misspelt
  obtain ⟨-, -, -, huntouched⟩ := htransform s.source unknown
  refine ⟨⟨rfl, hops, hshuts⟩, ?_, ?_, ?_, ⟨hfresh, hacts⟩, ?_, hmisspelt, hclosed hmisspelt,
    hunknown, ?_⟩
  · rw [hclosings, if_pos hshuts]
  · decide +kernel
  · rw [(hfinal hshuts).next_eq]
  · exact hshut 0 (.readAndClose (.int 9)) (by simp [acts]) rfl
  · rw [(huntouched hunknown).1]

end Offside
