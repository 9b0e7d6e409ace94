import Offside.Proofs.Accounting
import Offside.Source.Script

/-!
# Errors of the source

A source may fail at any request and answer the next one, and a stream may be asked again after an
error.  No character is lost in this way and none comes twice, and each error is handed on once.

What an error does depends on where it comes.  If the request that meets it has taken nothing before
it, the stream is as it was: the error might as well not have been there.  Otherwise the request has
read ahead in the whitespace at the start of a line.  Then this whitespace is handed out as it is,
and the rest of the line with it: the line is not looked at any more, and decides about nothing.

## Main definitions

* `CharSource.Omits` — one source answers like another, but for one error.
* `Stream.Within` — a line has begun.
* `Stream.Breaks` — a request has failed within the whitespace of a line.
* `Stream.Paced` — two streams have been answered the same.
* `Stream.Meets` — what becomes of a stream that meets the error that another need not meet.

## Main results

* `CharSource.omits_eraseIdx` — any error of a finite source can be left out.
* `Stream.Within.outcomes` — within a line all is handed on as it comes.
* `Stream.breaks_of_failure` — a failure in the whitespace of a line breaks the line off.
* `Stream.lockstep_of_omits` — until an error comes nothing tells that it will.
* `Stream.retry` — **no input is lost, and none comes twice.**
-/

namespace Offside

/-! ### A source without an error -/

namespace CharSource

/-- One source answers like another, but for one error that it does not give. -/
structure Omits {σ τ : Type} [CharSource σ] [CharSource τ] (k : Nat) (x : ReadError) (source : σ)
    (other : τ) : Prop where
  before : answers other k = answers source k
  error : (pull (asked source k)).outcome = .error x
  after : ∀ n, answers (asked other k) n = answers (asked source (k + 1)) n

/-- An answer that is no such error may come before. -/
theorem Omits.cons {σ τ : Type} [CharSource σ] [CharSource τ] {k : Nat} {x : ReadError} {source : σ}
    {other : τ} (h : Omits k x (pull source).next (pull other).next)
    (hfirst : (pull other).outcome = (pull source).outcome) : Omits (k + 1) x source other where
  before := by rw [answers_succ, answers_succ, hfirst, h.before]
  error := h.error
  after := h.after

/-- **Any error of a finite source can be left out.** -/
theorem omits_eraseIdx {script : ScriptSource} {k : Nat} {x : ReadError}
    (h : script.answers[k]? = some (.error x)) :
    Omits k x script { script with answers := script.answers.eraseIdx k } := by
  rcases script with ⟨answers, claimed, name, closings⟩
  induction k generalizing answers with
  | zero =>
    cases answers with
    | nil => simp at h
    | cons first rest =>
      obtain rfl : first = .error x := by simpa using h
      exact ⟨rfl, rfl, fun _ => rfl⟩
  | succ k ih =>
    cases answers with
    | nil => simp at h
    | cons first rest => exact Omits.cons (ih rest (by simpa using h)) rfl

end CharSource

/-! ### A failure is heard -/

namespace Engine

/-- Two analyses have the same levels open, and have counted the same marks. -/
structure SameLevels (e e' : Engine) : Prop where
  stack_eq : e'.stack = e.stack
  indents_eq : e'.indents = e.indents
  dedents_eq : e'.dedents = e.dedents

theorem SameLevels.trans {e e' e'' : Engine} (h : SameLevels e e') (h' : SameLevels e' e'') :
    SameLevels e e'' :=
  ⟨h'.stack_eq.trans h.stack_eq, h'.indents_eq.trans h.indents_eq,
    h'.dedents_eq.trans h.dedents_eq⟩

variable {file : Option String} {e e' : Engine}
  {answers : List (Except ReadError (Option CodePoint))} {error : Option ReadError}

/-- **An error of the source ends what is heard**, and what was held back before it stays queued. -/
theorem Hears.of_failure {x : ReadError} (h : Hears file e answers error e')
    (hx : .error x ∈ answers) :
    error = some x ∧ ∃ run : List CodePoint,
      answers = run.map (fun c => .ok (some c)) ++ [.error x] ∧
      (∀ c ∈ run, e.holds c = true) ∧
      e'.queue = e.queue ++ (run.map Token.content).map some ∧
      SameLevels e e' ∧ e'.exhausted = false ∧ (run = [] → e' = e) := by
  induction h with
  | ended => simp at hx
  | @fail e hmore y =>
    obtain rfl : x = y := by simpa using hx
    exact ⟨rfl, [], rfl, by simp, by simp, ⟨rfl, rfl, rfl⟩, hmore, fun _ => rfl⟩
  | stop => simp at hx
  | @hold e e' c answers error hmore hc hrest ih =>
    obtain ⟨herror, run, hanswers, hholds, hqueue, hlevels, hmore', -⟩ := ih (by simpa using hx)
    have hheld : SameLevels e (e.holdBack c) :=
      ⟨e.stack_holdBack c, e.indents_holdBack c, e.dedents_holdBack c⟩
    refine ⟨herror, c :: run, by rw [hanswers]; rfl, ?_, ?_, hheld.trans hlevels, hmore',
      by simp⟩
    · intro d hd
      rcases List.mem_cons.1 hd with rfl | hd
      · exact hc
      · have hholdBack := hholds d hd
        rw [holds_iff] at hholdBack ⊢
        simpa [escapes] using hholdBack
    · rw [hqueue, queue_holdBack]
      simp
  | pass => simp at hx
  | level => simp at hx
  | misfit => simp at hx

end Engine

namespace Stream

open Engine CharSource

variable {σ : Type} [CharSource σ] {s : Stream σ}

/-! ### The rest of a line -/

/-- A line has begun, and nothing is queued. -/
structure Within (s : Stream σ) : Prop where
  left_open : s.closed = false
  queue_nil : s.engine.queue = []
  more : s.engine.exhausted = false
  lineStart_eq : s.engine.lineStart = false

/-- Within a line an answer is handed on as it comes, and the levels stay. -/
theorem Within.next (h : Within s) (hend : (CharSource.pull s.source).outcome ≠ .ok none) :
    s.next.outcome = (CharSource.pull s.source).outcome.map (Option.map Token.content) ∧
      s.next.next.source = (CharSource.pull s.source).next ∧
      s.next.next.engine.layout = s.engine.layout ∧ SameLevels s.engine s.next.next.engine ∧
      ((CharSource.pull s.source).outcome ≠ .ok (some s.engine.layout.newline) →
        Within s.next.next) := by
  rcases hpull : (CharSource.pull s.source).outcome with x | _ | c
  · -- an error changes nothing, so the line goes on behind it
    have hhears : Hears s.name s.engine (CharSource.answers s.source 1) (some x) s.engine := by
      rw [answers_succ, answers_zero, hpull]
      exact .fail h.more x
    obtain ⟨told, hs⟩ := next_of_hears h.left_open h.queue_nil hhears
    rw [hs]
    refine ⟨rfl, rfl, rfl, ⟨rfl, rfl, rfl⟩, ?_⟩
    intro _
    exact ⟨h.left_open, h.queue_nil, h.more, h.lineStart_eq⟩
  · exact absurd hpull hend
  · let e : Engine := ((s.engine.arrive c).observe c).enqueue (some (.content c))
    have hhears : Hears s.name s.engine (CharSource.answers s.source 1) none e := by
      rw [answers_succ, answers_zero, hpull]
      exact .pass h.more (Or.inr (Or.inl h.lineStart_eq))
    obtain ⟨told, hs⟩ := next_of_hears h.left_open h.queue_nil hhears
    have hqueue : (s.fed 1 e).engine.queue = [some (.content c)] := by
      show (s.engine.arrive c).queue ++ _ = _
      rw [queue_arrive, h.queue_nil]
      rfl
    rw [hs, reply, handOut_of_queue_eq_cons hqueue]
    refine ⟨rfl, rfl, layout_arrive _ _, ⟨stack_arrive _ _, indents_arrive _ _,
      dedents_arrive _ _⟩, ?_⟩
    intro hc
    refine ⟨h.left_open, rfl, ?_, ?_⟩
    · show (s.engine.arrive c).exhausted = false
      rw [exhausted_arrive, h.more]
    · -- only a newline ends the line
      show decide (c = (s.engine.arrive c).layout.newline) = false
      rw [layout_arrive]
      apply decide_eq_false
      rintro rfl
      exact hc rfl

/-- **Within a line all is handed on as it comes**, errors included, and the levels stay. -/
theorem Within.outcomes (m : Nat) (h : Within s) (hend : .ok none ∉ CharSource.answers s.source m)
    (hnewline : .ok (some s.engine.layout.newline) ∉ CharSource.answers s.source m) :
    s.outcomes m = (CharSource.answers s.source m).map (Except.map (Option.map Token.content)) ∧
      (s.after m).source = asked s.source m ∧ (s.after m).engine.layout = s.engine.layout ∧
      SameLevels s.engine (s.after m).engine ∧ Within (s.after m) := by
  induction m with
  | zero => exact ⟨rfl, rfl, rfl, ⟨rfl, rfl, rfl⟩, h⟩
  | succ m ih =>
    rw [answers_succ_last, List.mem_append, not_or] at hend hnewline
    obtain ⟨houtcomes, hsource, hlayout, hlevels, hwithin⟩ := ih hend.1 hnewline.1
    have hend' : (CharSource.pull (s.after m).source).outcome ≠ .ok none := by
      rw [hsource]
      exact fun hnone => hend.2 (by simp [hnone])
    obtain ⟨houtcome, hsource', hlayout', hlevels', hwithin'⟩ := hwithin.next hend'
    rw [outcomes_succ_last, after_succ_last, answers_succ_last, asked_succ, ← hsource]
    refine ⟨?_, hsource', hlayout'.trans hlayout, hlevels.trans hlevels', hwithin' ?_⟩
    · rw [houtcomes, houtcome, List.map_append]
      rfl
    · rw [hsource, hlayout]
      exact fun hc => hnewline.2 (by simp [hc])

/-- The newline is handed on with the line. -/
theorem Within.outcomes_succ {m : Nat} (h : Within s)
    (hend : .ok none ∉ CharSource.answers s.source (m + 1))
    (hnewline : .ok (some s.engine.layout.newline) ∉ CharSource.answers s.source m) :
    s.outcomes (m + 1) =
        (CharSource.answers s.source (m + 1)).map (Except.map (Option.map Token.content)) ∧
      SameLevels s.engine (s.after (m + 1)).engine := by
  rw [answers_succ_last, List.mem_append, not_or] at hend
  obtain ⟨houtcomes, hsource, -, hlevels, hwithin⟩ := h.outcomes m hend.1 hnewline
  have hend' : (CharSource.pull (s.after m).source).outcome ≠ .ok none := by
    rw [hsource]
    exact fun hnone => hend.2 (by simp [hnone])
  obtain ⟨houtcome, -, -, hlevels', -⟩ := hwithin.next hend'
  rw [outcomes_succ_last, after_succ_last, answers_succ_last, ← hsource, List.map_append,
    houtcomes, houtcome]
  exact ⟨rfl, hlevels.trans hlevels'⟩

/-! ### A line that is broken off -/

/-- Handing out what is queued leaves the levels alone. -/
theorem sameLevels_of_queue (tokens : List Token) (hopen : s.closed = false)
    (hq : s.engine.queue = tokens.map some) {i : Nat} (hi : i ≤ tokens.length) :
    SameLevels s.engine (s.after i).engine := by
  induction tokens generalizing s i with
  | nil =>
    obtain rfl : i = 0 := Nat.le_zero.1 hi
    exact ⟨rfl, rfl, rfl⟩
  | cons t tokens ih =>
    cases i with
    | zero => exact ⟨rfl, rfl, rfl⟩
    | succ i =>
      have hlevels := ih (s := s.handed t (tokens.map some)) hopen rfl (Nat.le_of_succ_le_succ hi)
      rw [after_succ, next_of_queue_eq_cons hopen hq]
      exact ⟨hlevels.stack_eq, hlevels.indents_eq, hlevels.dedents_eq⟩

/-- A request to `s` has failed in the whitespace at the start of a line, and has left `u`: the run
that was read is handed out, what follows of the line is handed out as it comes, and the levels
stay. -/
structure Breaks (run : List CodePoint) (s u : Stream σ) : Prop where
  lineStart_eq : s.engine.lineStart = true
  whitespace : ∀ c ∈ run, s.engine.escapes c = false ∧ c ∈ s.engine.layout.whitespace
  run_outcomes : u.outcomes run.length = run.map fun c => .ok (some (.content c))
  run_levels : ∀ i ≤ run.length, SameLevels s.engine (u.after i).engine
  line_outcomes : ∀ m, .ok none ∉ CharSource.answers u.source (m + 1) →
    .ok (some s.engine.layout.newline) ∉ CharSource.answers u.source m →
      (u.after run.length).outcomes (m + 1) =
          (CharSource.answers u.source (m + 1)).map (Except.map (Option.map Token.content)) ∧
        SameLevels s.engine (u.after (run.length + (m + 1))).engine

/-- **A failure in the whitespace of a line breaks the line off.** -/
theorem breaks_of_failure {k : Nat} {e : Engine} {run : List CodePoint}
    (hopen : s.closed = false) (hq : s.engine.queue = [])
    (hnewline : s.engine.layout.newline ∉ s.engine.layout.whitespace) (hne : run ≠ [])
    (hholds : ∀ c ∈ run, s.engine.holds c = true)
    (hqueue : e.queue = s.engine.queue ++ (run.map Token.content).map some)
    (hlayout : e.layout = s.engine.layout) (hlevels : SameLevels s.engine e)
    (hmore : e.exhausted = false) : Breaks run s (s.fed k e) := by
  let u : Stream σ := s.fed k e
  rw [hq, List.nil_append] at hqueue
  -- the run is handed out first, and its last character decides where the line stands
  obtain ⟨before, c, rfl⟩ : ∃ before c, run = before ++ [c] :=
    ⟨run.dropLast, run.getLast hne, (List.dropLast_append_getLast hne).symm⟩
  have hlast : u.engine.queue = (before.map Token.content ++ [Token.content c]).map some ++ [] := by
    show e.queue = _
    simp [hqueue]
  obtain ⟨houtcomes, hafter⟩ := outcomes_of_queue (s := u) hopen _ _ _ hlast
  rw [List.length_map] at houtcomes hafter
  have hlength : (before ++ [c]).length = before.length + 1 := by simp
  -- when the run has been handed out, the line goes on, since its last character is no newline
  have hwithin : Within (u.after (before.length + 1)) := by
    rw [hafter]
    refine ⟨hopen, rfl, hmore, ?_⟩
    show decide (c = e.layout.newline) = false
    rw [hlayout]
    apply decide_eq_false
    rintro rfl
    exact hnewline (holds_iff.1 (hholds _ (by simp))).2.2
  have hlevels' {i : Nat} (hi : i ≤ (before ++ [c]).length) :
      SameLevels s.engine (u.after i).engine :=
    hlevels.trans (sameLevels_of_queue (s := u) ((before ++ [c]).map Token.content) hopen hqueue
      (by simpa using hi))
  constructor
  · exact (holds_iff.1 (hholds c (by simp))).2.1
  · intro d hd
    obtain ⟨hesc, -, hspace⟩ := holds_iff.1 (hholds d hd)
    exact ⟨hesc, hspace⟩
  · rw [hlength, houtcomes]
    simp [Function.comp_def]
  · intro i hi
    exact hlevels' hi
  · -- what comes behind the run is handed on as the rest of a line
    intro m hend hline
    have hsource : (u.after (before.length + 1)).source = u.source := by
      rw [hafter]
      rfl
    have hnewline' : (u.after (before.length + 1)).engine.layout.newline =
        s.engine.layout.newline := by
      rw [hafter]
      exact congrArg Layout.newline hlayout
    obtain ⟨hrest, hlevels''⟩ := hwithin.outcomes_succ (m := m) (by rwa [hsource])
      (by rwa [hsource, hnewline'])
    rw [hsource] at hrest
    rw [← u.after_add] at hlevels''
    rw [hlength]
    exact ⟨hrest, (hlevels' hlength.ge).trans hlevels''⟩

/-! ### An error that need not have been -/

section Omits

variable {τ : Type} [CharSource τ] {t : Stream τ} {k n j : Nat} {x : ReadError}

/-- Up to some number of requests two streams have been answered the same, and each has taken `j`
answers. -/
structure Paced (s : Stream σ) (t : Stream τ) (n j : Nat) : Prop where
  left_source : (s.after n).source = asked s.source j
  right_source : (t.after n).source = asked t.source j
  engine_eq : (t.after n).engine = (s.after n).engine
  outcomes_eq : t.outcomes n = s.outcomes n

/-- Before the error the two sources give the same answers. -/
theorem answers_of_omits {source : σ} {other : τ} (h : Omits k x source other) (hj : j + n ≤ k) :
    CharSource.answers (asked other j) n = CharSource.answers (asked source j) n :=
  answers_asked_eq (answers_eq_of_le h.before hj)

/-- The answers up to the error, and those after it. -/
theorem answers_through {source : σ} {other : τ} (h : Omits k x source other) (hj : j ≤ k)
    (i : Nat) :
    CharSource.answers (asked source j) (k - j + 1 + i) =
      CharSource.answers (asked source j) (k - j) ++
        .error x :: CharSource.answers (asked source (k + 1)) i := by
  have hk : asked (asked source j) (k - j) = asked source k := by
    rw [← asked_add, Nat.add_sub_cancel' hj]
  rw [answers_add, answers_succ_last, asked_succ, hk, h.error, ← asked_succ]
  simp

/-- Who takes the error takes nothing after it. -/
theorem eq_zero_of_hears {source : σ} {other : τ} {file : Option String} {e e' : Engine}
    {error : Option ReadError} {i : Nat} (h : Omits k x source other) (hj : j ≤ k)
    (hhears : Hears file e (CharSource.answers (asked source j) (k - j + 1 + i)) error e') :
    i = 0 ∧ error = some x := by
  have hanswers := answers_through h hj i
  refine ⟨?_, (hhears.of_failure (x := x) (by rw [hanswers]; simp)).1⟩
  by_contra hi
  have hrest : .error x :: CharSource.answers (asked source (k + 1)) i ≠ [] := by simp
  have hmem : .error x ∈ (CharSource.answers (asked source j) (k - j + 1 + i)).dropLast := by
    rw [hanswers, List.dropLast_append_of_ne_nil hrest, List.dropLast_cons_of_ne_nil]
    · simp
    · intro hnil
      exact hi (by simpa using congrArg List.length hnil)
  obtain ⟨c, hc⟩ := hhears.exists_of_mem_dropLast _ hmem
  simp at hc

/-- What is queued is handed out by both. -/
theorem Paced.handOut (h : Paced s t n j) (hs : (s.after n).next = (s.after n).handOut)
    (ht : (t.after n).next = (t.after n).handOut) : Paced s t (n + 1) j := by
  obtain ⟨houtcome, hengine⟩ := handOut_congr h.engine_eq
  constructor
  · rw [after_succ_last, hs]
    exact h.left_source
  · rw [after_succ_last, ht]
    exact h.right_source
  · rw [after_succ_last, after_succ_last, hs, ht, hengine]
  · rw [outcomes_succ_last, outcomes_succ_last, h.outcomes_eq, hs, ht, houtcome]

/-- What both hear they answer alike. -/
theorem Paced.hears {m : Nat} {e : Engine} {error : Option ReadError} {told told' : List Notice}
    (h : Paced s t n j) (hs : (s.after n).next = (((s.after n).fed m e).reply error).after told)
    (ht : (t.after n).next = (((t.after n).fed m e).reply error).after told') :
    Paced s t (n + 1) (j + m) := by
  have hreply : (((t.after n).fed m e).reply error).outcome =
        (((s.after n).fed m e).reply error).outcome ∧
      (((t.after n).fed m e).reply error).next.engine =
        (((s.after n).fed m e).reply error).next.engine := by
    cases error with
    | some y => exact ⟨rfl, rfl⟩
    | none => exact handOut_congr rfl
  constructor
  · rw [after_succ_last, hs, asked_add, ← h.left_source]
    cases error <;> rfl
  · rw [after_succ_last, ht, asked_add, ← h.right_source]
    cases error <;> rfl
  · rw [after_succ_last, after_succ_last, hs, ht]
    exact hreply.2
  · rw [outcomes_succ_last, outcomes_succ_last, h.outcomes_eq, hs, ht]
    exact congrArg (s.outcomes n ++ [·]) hreply.1

/-- A request to both streams is answered the same, or it meets the error. -/
theorem Paced.next (h : Paced s t n j) (hs : s.closed = false) (ht : t.closed = false)
    (hname : t.name = s.name) (homits : Omits k x s.source t.source) (hj : j ≤ k) :
    (∃ i ≤ k, Paced s t (n + 1) i) ∨
      ∃ e, (s.after n).engine.queue = [] ∧
        Hears s.name (s.after n).engine (CharSource.answers (asked s.source j) (k - j + 1))
          (some x) e ∧
        (s.after n).next.outcome = .error x ∧
        (s.after n).next.next = (s.after n).fed (k - j + 1) e := by
  obtain ⟨hsname, hsopen⟩ := name_after hs n
  obtain ⟨htname, htopen⟩ := name_after ht n
  rcases next_hears hsopen with ⟨hne, hsnext⟩ | ⟨hq, m, error, e, told, hhears, hsnext⟩
  · -- both queues are the same, and neither source is asked
    have hne' : (t.after n).engine.queue ≠ [] := by rwa [h.engine_eq]
    exact Or.inl ⟨j, hj, h.handOut hsnext (next_of_queue_ne_nil htopen hne')⟩
  · rw [h.left_source, hsname] at hhears
    by_cases hle : j + m ≤ k
    · -- the error has not come yet, so both hear the same
      have hhears' : Hears (t.after n).name (t.after n).engine
          (CharSource.answers (t.after n).source m) error e := by
        rw [htname, hname, h.engine_eq, h.right_source, answers_of_omits homits hle]
        exact hhears
      obtain ⟨told', htnext⟩ := next_of_hears htopen (by rw [h.engine_eq, hq]) hhears'
      exact Or.inl ⟨j + m, hle, h.hears hsnext htnext⟩
    · -- the error is among the answers, and so it is the last of them
      obtain ⟨i, rfl⟩ : ∃ i, m = (k - j) + 1 + i := Nat.exists_eq_add_of_le (by omega)
      obtain ⟨rfl, rfl⟩ := eq_zero_of_hears homits hj hhears
      refine Or.inr ⟨e, hq, hhears, ?_, ?_⟩
      · rw [hsnext]
        rfl
      · rw [hsnext]
        rfl

/-- The request number `p` to `s` meets the error, after the same answers to both streams.  If it
has taken nothing before the error, then all is afterwards as if the error had not been there, and
otherwise a line is broken off. -/
structure Meets (k : Nat) (x : ReadError) (s : Stream σ) (t : Stream τ) (p j : Nat) : Prop where
  paced : Paced s t p j
  outcome_eq : (s.after p).next.outcome = .error x
  source_eq : (s.after (p + 1)).source = asked s.source (k + 1)
  unharmed : j = k → ∀ i, (s.after (p + 1)).outcomes i = (t.after p).outcomes i ∧
    (s.after (p + 1 + i)).engine = (t.after (p + i)).engine
  broken : j < k → ∃ run : List CodePoint,
    CharSource.answers (asked s.source j) (k - j) = run.map (fun c => .ok (some c)) ∧
      Breaks run (s.after p) (s.after (p + 1))

/-- An error that is heard is met. -/
theorem Paced.meets {e : Engine} (h : Paced s t n j) (hs : s.closed = false) (ht : t.closed = false)
    (hname : t.name = s.name) (hnewline : s.engine.layout.newline ∉ s.engine.layout.whitespace)
    (homits : Omits k x s.source t.source) (hj : j ≤ k) (hq : (s.after n).engine.queue = [])
    (hhears : Hears s.name (s.after n).engine
      (CharSource.answers (asked s.source j) (k - j + 1)) (some x) e)
    (houtcome : (s.after n).next.outcome = .error x)
    (hnext : (s.after n).next.next = (s.after n).fed (k - j + 1) e) : Meets k x s t n j := by
  have hanswers := answers_through homits hj 0
  rw [answers_zero, Nat.add_zero] at hanswers
  obtain ⟨-, run, hrun, hholds, hqueue, hlevels, hmore, hnil⟩ :=
    hhears.of_failure (x := x) (by rw [hanswers]; simp)
  rw [hanswers] at hrun
  have hrun' := List.append_inj_left' hrun rfl
  -- as many characters have been taken in hand as answers came before the error
  have hlength : k - j = run.length := by
    have hcongr := congrArg List.length hrun'
    rwa [length_answers, List.length_map] at hcongr
  have hsource : (s.after (n + 1)).source = asked s.source (k + 1) := by
    have hcount : j + (k - j + 1) = k + 1 := by omega
    rw [after_succ_last, hnext]
    show asked (s.after n).source (k - j + 1) = _
    rw [h.left_source, ← asked_add, hcount]
  refine ⟨h, houtcome, hsource, ?_, ?_⟩
  · rintro rfl i
    -- nothing was taken before the error, so the stream is as it was
    obtain rfl : run = [] := List.eq_nil_of_length_eq_zero (by omega)
    have halike : Alike (t.after n) (s.after (n + 1)) := by
      refine ⟨?_, (name_after ht n).2, (name_after hs (n + 1)).2, Or.inr ?_⟩
      · rw [after_succ_last, hnext, h.engine_eq]
        exact hnil rfl
      · rw [hsource, h.right_source]
        intro i _
        exact homits.after (i + 1)
    have hname' : (s.after (n + 1)).name = (t.after n).name := by
      rw [(name_after hs (n + 1)).1, (name_after ht n).1, hname]
    refine ⟨halike.outcomes hname' i, ?_⟩
    rw [s.after_add (n + 1) i, t.after_add n i]
    exact (halike.after i).engine_eq
  · -- something was taken, all of it whitespace that starts a line, and the line is broken off
    intro hlt
    refine ⟨run, hrun', ?_⟩
    have hlayout : (s.after n).engine.layout = s.engine.layout := layout_after hs n
    have hne : run ≠ [] := by
      rintro rfl
      simp at hlength
      omega
    rw [after_succ_last, hnext]
    exact breaks_of_failure (name_after hs n).2 hq (by rwa [hlayout]) hne hholds hqueue
      hhears.layout_eq hlevels hmore

/-- **Until an error comes nothing tells that it will**, and then it is met. -/
theorem lockstep_of_omits (hs : s.closed = false) (ht : t.closed = false) (hname : t.name = s.name)
    (hstart : t.engine = s.engine) (hnewline : s.engine.layout.newline ∉ s.engine.layout.whitespace)
    (homits : Omits k x s.source t.source) (n : Nat) :
    (∃ j ≤ k, Paced s t n j) ∨ ∃ p < n, ∃ j ≤ k, Meets k x s t p j := by
  induction n with
  | zero => exact Or.inl ⟨0, Nat.zero_le k, rfl, rfl, hstart, rfl⟩
  | succ n ih =>
    rcases ih with ⟨j, hj, hpaced⟩ | ⟨p, hp, hmet⟩
    · rcases hpaced.next hs ht hname homits hj with hnext | ⟨e, hq, hhears, houtcome, hnext⟩
      · exact Or.inl hnext
      · exact Or.inr ⟨n, Nat.lt_succ_self n, j, hj,
          hpaced.meets hs ht hname hnewline homits hj hq hhears houtcome hnext⟩
    · exact Or.inr ⟨p, Nat.lt_succ_of_lt hp, hmet⟩

end Omits

/-! ### Asking again -/

/-- **No input is lost and none comes twice** when a stream is asked again after an error of its
source.

Each error is handed on once and as it is, and if the whitespace is kept and the marks are no
characters of the source, what is handed out without its marks is at all times a beginning of the
characters of the source, and in the end all of them.  And for each error of the source: either it
is not met, or up to the request that meets it a source without the error is answered the same.  If
this request has taken nothing before the error, all is the same afterwards; if it has, that was
whitespace, and the line is broken off. -/
theorem retry (source : σ) (name : Option String) (l : Layout) (rules : List Rule)
    (hnewline : l.newline ∉ l.whitespace) :
    let s := start source name l rules
    (∀ n, (∀ m, .error (.mismatch m) ∉ s.outcomes n) →
      let text := Token.text (tokensIn (s.outcomes (n + 1)))
      ∃ j, (s.after (n + 1)).source = asked source j ∧
        (failures (s.outcomes (n + 1)) = failures (CharSource.answers source j) ∨
          ∃ m, (s.after n).next.outcome = .error (.mismatch m) ∧
            failures (s.outcomes n) = failures (CharSource.answers source j)) ∧
        (l.keepWhitespace = true →
          (∀ i, .ok (some l.indentMark) ∉ CharSource.answers source i) →
          (∀ i, .ok (some l.dedentMark) ∉ CharSource.answers source i) →
            l.unmark text <+: charsOf (CharSource.answers source j) ∧
              ((s.after n).next.outcome = .ok none → .ok none ∈ CharSource.answers source j ∧
                l.unmark text = charsOf (CharSource.answers source j)))) ∧
      ∀ {τ : Type} [CharSource τ] (other : τ) (k : Nat) (x : ReadError),
        Omits k x source other →
          let t := start other name l rules
          ∀ n, (∃ j ≤ k, Paced s t n j) ∨ ∃ p < n, ∃ j ≤ k, Meets k x s t p j := by
  intro s
  refine ⟨fun n hno => account_after source name l rules n hno, ?_⟩
  intro τ _ other k x homits t n
  exact lockstep_of_omits (s := s) (t := t) rfl rfl rfl rfl hnewline homits n

/-- A block whose source fails twice: in the whitespace of its second line, and behind it. -/
def flakyText : ScriptSource :=
  { answers := [.ok (some 'a'), .ok (some '\n'), .ok (some ' '), .error .closedFile,
      .ok (some ' '), .ok (some 'b'), .error .closedFile, .ok (some 'c')] }

/-- The same block with the first failure only. -/
def steadyText : ScriptSource := { flakyText with answers := flakyText.answers.eraseIdx 6 }

/-- The same block with the second failure only. -/
def evenText : ScriptSource := { flakyText with answers := flakyText.answers.eraseIdx 3 }

/-- An answer of a script stands in it, or is the end. -/
theorem mem_answers_script {script : ScriptSource} {answer : Except ReadError (Option CodePoint)}
    {n : Nat} (h : answer ∈ CharSource.answers script n) :
    answer ∈ script.answers ∨ answer = .ok none := by
  induction n generalizing script with
  | zero => simp at h
  | succ n ih =>
    rw [answers_succ, List.mem_cons] at h
    rcases script with ⟨_ | ⟨first, rest⟩, claimed, name, closings⟩
    · -- a script that is used up stays so
      rcases h with h | h
      · exact Or.inr h
      · exact ih h
    · rcases h with rfl | h
      · exact Or.inl (List.mem_cons_self ..)
      · exact (ih h).imp_left (List.mem_cons_of_mem first)

/-- The block is read to its end, and nothing of it is missing.  The second failure does no harm,
and the first breaks off the second line. -/
theorem retry_flakyText :
    let l : Layout := { keepWhitespace := true }
    let s := start flakyText none l []
    l.newline ∉ l.whitespace ∧ (∀ m, .error (.mismatch m) ∉ s.outcomes 8) ∧
      (∃ j, failures (s.outcomes 9) = failures (CharSource.answers flakyText j) ∧
        .ok none ∈ CharSource.answers flakyText j ∧
        l.unmark (Token.text (tokensIn (s.outcomes 9))) =
          charsOf (CharSource.answers flakyText j)) ∧
      (∃ p < 9, (s.after p).next.outcome = .error .closedFile ∧
        ∀ i, (s.after (p + 1)).outcomes i =
          ((start steadyText none l []).after p).outcomes i) ∧
      ∃ p < 9, ∃ run, run ≠ [] ∧ Breaks run (s.after p) (s.after (p + 1)) := by
  intro l s
  have hnewline : l.newline ∉ l.whitespace := by decide
  obtain ⟨haccount, hretry⟩ := retry flakyText none l [] hnewline
  have hno : ∀ m, .error (.mismatch m) ∉ s.outcomes 8 := by
    intro m hm
    have hfailures : ReadError.mismatch m ∈ failures (s.outcomes 8) :=
      List.mem_filterMap.2 ⟨_, hm, rfl⟩
    have hclosed : failures (s.outcomes 8) = [.closedFile, .closedFile] := by decide +kernel
    simp [hclosed] at hfailures
  have hend : (s.after 8).next.outcome = .ok none := by decide +kernel
  -- how much of the script is left tells which answers have been taken
  have hleft : (s.after 9).source.answers.length = 0 := by decide +kernel
  have hscript : ∀ j < 8, (asked flakyText j).answers.length = 8 - j := by decide +kernel
  have htaken {t : Stream ScriptSource} {p j : Nat} (hpaced : Paced s t p j) (hj : j < 8) :
      (s.after p).source.answers.length = 8 - j := by
    rw [hpaced.left_source]
    exact hscript j hj
  have hforeign (c : CodePoint) (hc : .ok (some c) ∉ flakyText.answers) (i : Nat) :
      .ok (some c) ∉ CharSource.answers flakyText i := by
    intro hi
    rcases mem_answers_script hi with hmem | hnone
    · exact hc hmem
    · cases hnone
  refine ⟨hnewline, hno, ?_, ?_, ?_⟩
  · obtain ⟨j, -, hfailures, hunmark⟩ := haccount 8 hno
    obtain ⟨-, hall⟩ := hunmark rfl (hforeign '>' (by decide)) (hforeign '<' (by decide))
    refine ⟨j, ?_, hall hend⟩
    rcases hfailures with hsame | ⟨m, hm, -⟩
    · exact hsame
    · rw [hend] at hm
      cases hm
  · -- the second failure comes between two lines, so it is met with nothing in hand
    rcases hretry steadyText 6 .closedFile (omits_eraseIdx rfl) 9 with
      ⟨j, hj, hpaced⟩ | ⟨p, hp, j, hj, hmeets⟩
    · have hall := htaken hpaced (by omega)
      omega
    · have hstep : ∀ p < 9, (s.after (p + 1)).source.answers.length = 1 →
          (s.after p).source.answers.length = 2 := by decide +kernel
      have htwo := hstep p hp (by rw [hmeets.source_eq]; rfl)
      have hnone : j = 6 := by
        have hj' := htaken hmeets.paced (by omega)
        omega
      exact ⟨p, hp, hmeets.outcome_eq, fun i => (hmeets.unharmed hnone i).1⟩
  · -- the first comes in the whitespace of a line, when some of it has been taken
    rcases hretry evenText 3 .closedFile (omits_eraseIdx rfl) 9 with
      ⟨j, hj, hpaced⟩ | ⟨p, hp, j, hj, hmeets⟩
    · have hall := htaken hpaced (by omega)
      omega
    · have hstep : ∀ p < 9, (s.after p).source.answers.length ≠ 5 := by decide +kernel
      have hne := hstep p hp
      rw [htaken hmeets.paced (by omega)] at hne
      obtain ⟨run, hrun, hbroken⟩ := hmeets.broken (by omega)
      refine ⟨p, hp, run, ?_, hbroken⟩
      -- an empty run would mean that no answer was taken before the failure
      rintro rfl
      have hlength := congrArg List.length hrun
      rw [length_answers, List.map_nil, List.length_nil] at hlength
      omega

end Stream

end Offside
