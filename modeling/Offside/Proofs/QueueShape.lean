import Offside.Proofs.Deciding
import Offside.Proofs.LineBreaks

/-!
# The shape of the queue

The queue is filled in four places: the leading whitespace of a line is put there while it is read
ahead, the character that ends it is put behind it, a line that is decided puts its marks in front,
and the end of the input puts the marks of the open levels there, with an entry for the end.  Each
of them works for a queue in which nothing else is, and this is so because a stream asks its source
only when nothing is queued, and hands out what is queued first.  So whatever is queued between two
requests comes from **one** request to the source, and is the rest of what this request has left.

A request that fails may leave whitespace behind, which is handed out like everything else before
the source is asked again.  Indents never stay in the queue: there is one of them for a line at
most, it comes first, and the request that puts it there hands it out.

## Main definitions

* `Stream.Asked` — a request that has held back some whitespace and heard what follows.
* `Engine.Leaves` — what a request leaves in the queue, before the first entry is handed out.
* `Stream.Shape` — what may be queued between two requests, and where it comes from.

## Main results

* `Engine.Hears.exists_leaves` — what is heard determines what is queued.
* `Stream.Shape.next`, `Stream.journal_shape` — the shape of the queue is kept.
* `Stream.Shape.entries` — where the end is queued, and that no indent is.
* `Stream.queue_shape` — **the shape of the queue, at all times**.
-/

namespace Offside

namespace Engine

variable {e e' : Engine} {file : Option String} {c d : CodePoint} {run : List CodePoint}
  {answers : List (Except ReadError (Option CodePoint))} {error : Option ReadError}

/-! ### What a request leaves -/

/-- What a request leaves in the queue that has held back `run` and then heard an answer, before the
first entry is handed out. -/
inductive Leaves (e : Engine) (run : List CodePoint) :
    Except ReadError (Option CodePoint) → Option ReadError → Engine → Prop where
  /-- The source fails, and the whitespace stays. -/
  | fail {e' : Engine} (x : ReadError) (hq : e'.queue = held run) :
      Leaves e run (.error x) (some x) e'
  /-- The input ends, and the end is queued behind the whitespace. -/
  | stop {e' : Engine} (hended : e'.exhausted = true) (hq : e'.queue = held run ++ [none]) :
      Leaves e run (.ok none) none e'
  /-- The character is queued behind the whitespace. -/
  | pass {e' : Engine} {c : CodePoint} (hc : e.Passes c)
      (hq : e'.queue = held run ++ [some (.content c)]) : Leaves e run (.ok (some c)) none e'
  /-- The marks of the line are queued, the whitespace if it is kept, and the character. -/
  | level {e' : Engine} {c : CodePoint} (depth : Nat) (hc : e.Decides c)
      (hq : e'.queue = (e.layout.marks e.depth depth).map some ++
        held (if e.layout.keepWhitespace then run else []) ++ [some (.content c)]) :
      Leaves e run (.ok (some c)) none e'
  /-- The line is malformed, and the whitespace stays. -/
  | misfit {e' : Engine} {c : CodePoint} (x : ReadError) (hc : e.Decides c)
      (hq : e'.queue = held run) :
      Leaves e run (.ok (some c)) (some x) e'

theorem passes_holdBack : (e.holdBack d).Passes c ↔ e.Passes c := by
  simp [Passes, escapes]

theorem decides_of_holdBack (h : (e.holdBack d).Decides c) : e.Decides c where
  escapes_eq := by
    have := h.escapes_eq
    rwa [escapes, tracker_holdBack] at this
  lineStart_eq := by
    have := h.lineStart_eq
    rwa [lineStart_holdBack] at this
  notMem := by
    have := h.notMem
    rwa [layout_holdBack] at this
  ne_newline := by
    have := h.ne_newline
    rwa [layout_holdBack] at this

theorem Leaves.of_holdBack {answer : Except ReadError (Option CodePoint)}
    (h : Leaves (e.holdBack d) run answer error e') : Leaves e run answer error e' := by
  have hdepth : (e.holdBack d).depth = e.depth := congrArg Stack.depth (e.stack_holdBack d)
  cases h with
  | fail x hq => exact .fail x hq
  | stop hended hq => exact .stop hended hq
  | pass hc hq => exact .pass (passes_holdBack.1 hc) hq
  | level depth hc hq =>
    rw [layout_holdBack, hdepth] at hq
    exact .level depth (decides_of_holdBack hc) hq
  | misfit x hc hq => exact .misfit x (decides_of_holdBack hc) hq

theorem Leaves.queue_ne_nil {answer : Except ReadError (Option CodePoint)}
    (h : Leaves e run answer none e') : e'.queue ≠ [] := by
  cases h with
  | stop hended hq => simp [hq]
  | pass hc hq => simp [hq]
  | level depth hc hq => simp [hq]

/-- **What is heard determines what is queued**: characters that are held back, and one answer after
them. -/
theorem Hears.exists_leaves (h : Hears file e answers error e') (hmore : e.exhausted = false)
    (hq : e.queue = held run) :
    ∃ lead answer, (∀ c ∈ lead, e.holds c = true) ∧
      answers = lead.map (fun c => .ok (some c)) ++ [answer] ∧
      Leaves e (run ++ lead) answer error e' := by
  -- by what is heard; each character that is held back joins the run
  induction h generalizing run with
  | ended hended => simp [hmore] at hended
  | fail _ x =>
    refine ⟨[], _, by simp, rfl, .fail x ?_⟩
    rw [hq, List.append_nil]
  | stop =>
    refine ⟨[], _, by simp, rfl, .stop rfl ?_⟩
    rw [List.append_nil, ← hq]
    rfl
  | @hold e e' c answers error _ hc hrest ih =>
    have hqueue : (e.holdBack c).queue = held (run ++ [c]) := by
      rw [queue_holdBack, hq, held_append]
      rfl
    obtain ⟨lead, answer, hlead, hanswers, hleaves⟩ := ih (by simpa using hmore) hqueue
    refine ⟨c :: lead, answer, fun d hd => ?_, by rw [hanswers]; rfl, ?_⟩
    · rcases List.mem_cons.1 hd with rfl | hd
      · exact hc
      · rw [← e.holds_holdBack c]
        exact hlead d hd
    · rw [List.append_assoc, List.singleton_append] at hleaves
      exact hleaves.of_holdBack
  | @pass e c _ hc =>
    refine ⟨[], _, by simp, rfl, .pass hc ?_⟩
    show (e.arrive c).queue ++ [some (.content c)] = _
    rw [queue_arrive, hq, List.append_nil]
  | @level e c stack _ hc hstack =>
    refine ⟨[], _, by simp, rfl, .level stack.depth hc ?_⟩
    have hqueue : ((e.arrive c).relevel stack).queue = held run := (e.queue_arrive c).trans hq
    have hlayout : ((e.arrive c).relevel stack).layout = e.layout := e.layout_arrive c
    rw [place, hqueue, hlayout, List.append_nil]
    cases e.layout.keepWhitespace with
    | false => simp
    | true => simp
  | @misfit e c _ hc hstack =>
    refine ⟨[], _, by simp, rfl, .misfit _ hc ?_⟩
    rw [queue_arrive, hq, List.append_nil]

/-- A character ends whitespace without deciding about its line: it is the newline, or it opens a
region. -/
def Ends (e : Engine) (c : CodePoint) : Prop :=
  c = e.layout.newline ∨ (e.tracker.opened c).isSome = true

/-- What passes behind whitespace that is held back ends it. -/
theorem Passes.ends (h : e.Passes c) (hd : e.holds d = true) : e.Ends c := by
  obtain ⟨hesc, hline, -⟩ := holds_iff.1 hd
  obtain ⟨hactive, -⟩ := escapes_eq_false_iff.1 hesc
  rcases h with hpass | hstart | ⟨hnl, -⟩
  · right
    simpa [escapes, Tracker.escapes, hactive] using hpass
  · rw [hline] at hstart
    cases hstart
  · exact .inl hnl

end Engine

namespace Stream

open Engine CharSource

variable {σ : Type} [CharSource σ] {s t : Stream σ} {past : List (Stream σ)}

/-! ### The shape of the queue -/

/-- A request that has asked its source: nothing was queued, some whitespace was held back, and an
answer came behind it. -/
structure Asked (t : Stream σ) (lead : List CodePoint)
    (answer : Except ReadError (Option CodePoint)) : Prop where
  closed_eq : t.closed = false
  queue_eq : t.engine.queue = []
  more : t.engine.exhausted = false
  holds : ∀ c ∈ lead, t.engine.holds c = true
  answers_eq : answers t.source (lead.length + 1) =
    lead.map (fun c => .ok (some c)) ++ [answer]

/-- The whitespace that is delivered with its line. -/
def kept (t : Stream σ) (lead : List CodePoint) : List CodePoint :=
  if t.engine.layout.keepWhitespace then lead else []

/-- What may be queued between two requests, by the turn that it comes from. -/
inductive Shape (past : List (Stream σ)) (e : Engine) : Prop where
  /-- Nothing is queued. -/
  | empty (hq : e.queue = [])
  /-- The rest of the whitespace of a line, and the newline or the opening character behind it. -/
  | blank {t : Stream σ} {lead rest : List CodePoint} {c : CodePoint} (ht : t ∈ past)
      (hasked : t.Asked lead (.ok (some c))) (hc : t.engine.Ends c) (hrest : rest <:+ lead)
      (hq : e.queue = held rest ++ [some (.content c)])
  /-- The rest of the whitespace at the end of the input, and the end. -/
  | last {t : Stream σ} {lead rest : List CodePoint} (ht : t ∈ past)
      (hasked : t.Asked lead (.ok none))
      (hended : e.exhausted = true) (hrest : rest <:+ lead) (hq : e.queue = held rest ++ [none])
  /-- Closing marks, the whitespace of a line if it is kept, and the character that has decided
  about the line.  The whitespace is whole while there are marks before it. -/
  | line {t : Stream σ} {lead rest : List CodePoint} {c : CodePoint} {n : Nat} (ht : t ∈ past)
      (hasked : t.Asked lead (.ok (some c))) (hc : t.engine.Decides c)
      (hrest : rest <:+ t.kept lead) (hwhole : n ≠ 0 → rest = t.kept lead)
      (hq : e.queue = List.replicate n (some t.engine.dedentToken) ++ held rest ++
        [some (.content c)])
  /-- The rest of the whitespace of a line that could not be read. -/
  | failed {t : Stream σ} {lead rest : List CodePoint}
      {answer : Except ReadError (Option CodePoint)}
      {x : ReadError} (ht : t ∈ past) (hasked : t.Asked lead answer)
      (hx : t.next.outcome = .error x) (hrest : rest <:+ lead) (hq : e.queue = held rest)
  /-- Closing marks of the levels that were open at the end of the input, and the end. -/
  | ending {t : Stream σ} {n : Nat} (ht : t ∈ past) (hended : e.exhausted = true)
      (hdepth : e.depth = 0)
      (hq : e.queue = List.replicate n (some t.engine.dedentToken) ++ [none])

omit [CharSource σ] in
theorem suffix_of_cons {c : CodePoint} {rest lead : List CodePoint} (h : c :: rest <:+ lead) :
    rest <:+ lead :=
  (List.suffix_cons c rest).trans h

/-- The shape of a queue stays when more turns come, and when nothing changes but conventions. -/
theorem Shape.congr {later : List (Stream σ)} {e e' : Engine} (h : Shape past e)
    (hpast : past ⊆ later) (hqueue : e'.queue = e.queue) (hended : e'.exhausted = e.exhausted)
    (hdepth : e'.depth = e.depth) : Shape later e' := by
  cases h with
  | empty hq => exact .empty (hqueue.trans hq)
  | blank ht hasked hc hrest hq => exact .blank (hpast ht) hasked hc hrest (hqueue.trans hq)
  | last ht hasked hmet hrest hq =>
    exact .last (hpast ht) hasked (hended.trans hmet) hrest (hqueue.trans hq)
  | line ht hasked hc hrest hwhole hq =>
    exact .line (hpast ht) hasked hc hrest hwhole (hqueue.trans hq)
  | failed ht hasked hx hrest hq => exact .failed (hpast ht) hasked hx hrest (hqueue.trans hq)
  | ending ht hmet hzero hq =>
    exact .ending (hpast ht) (hended.trans hmet) (hdepth.trans hzero) (hqueue.trans hq)

theorem Shape.mono {e : Engine} (h : Shape past e) (more : List (Stream σ)) :
    Shape (past ++ more) e :=
  h.congr (List.subset_append_left past more) rfl rfl rfl

/-- The end of the input is handed out, or the first mark of the open levels. -/
theorem shape_handOut_end (ht : t ∈ past) (hmark : s.engine.dedentToken = t.engine.dedentToken)
    (hended : s.engine.exhausted = true) (hq : s.engine.queue = [none]) :
    Shape past s.handOut.next.engine := by
  cases hdepth : s.engine.depth with
  | zero =>
    rw [handOut_of_depth_eq_zero hq hdepth]
    exact .empty rfl
  | succ n =>
    rw [handOut_of_depth_eq_succ hq hdepth]
    refine .ending (n := n) ht hended rfl ?_
    rw [← hmark]
    rfl

/-- **Handing out keeps the shape of the queue.** -/
theorem Shape.handOut (h : Shape past s.engine) (hne : s.engine.queue ≠ []) (ht : t ∈ past)
    (hmark : s.engine.dedentToken = t.engine.dedentToken) : Shape past s.handOut.next.engine := by
  -- what is left of the queue has the same shape, a character or a mark shorter
  cases h with
  | empty hq => exact absurd hq hne
  | @blank t' lead rest c ht' hasked hc hrest hq =>
    cases rest with
    | nil =>
      rw [handOut_of_queue_eq_cons hq]
      exact .empty rfl
    | cons d rest =>
      rw [handOut_of_queue_eq_cons hq]
      exact .blank ht' hasked hc (suffix_of_cons hrest) rfl
  | @last t' lead rest ht' hasked hended hrest hq =>
    cases rest with
    -- the end is all that is queued, so marks may take its place
    | nil => exact shape_handOut_end ht hmark hended hq
    | cons d rest =>
      rw [handOut_of_queue_eq_cons hq]
      exact .last ht' hasked hended (suffix_of_cons hrest) rfl
  | @line t' lead rest c n ht' hasked hc hrest hwhole hq =>
    cases n with
    | succ n =>
      rw [List.replicate_succ, List.cons_append, List.cons_append] at hq
      rw [handOut_of_queue_eq_cons hq]
      exact .line ht' hasked hc hrest (fun _ => hwhole (Nat.succ_ne_zero n)) rfl
    | zero =>
      rw [List.replicate_zero, List.nil_append] at hq
      cases rest with
      | nil =>
        rw [handOut_of_queue_eq_cons hq]
        exact .empty rfl
      | cons d rest =>
        rw [handOut_of_queue_eq_cons hq]
        exact .line (n := 0) ht' hasked hc (suffix_of_cons hrest) (fun h => absurd rfl h) rfl
  | @failed t' lead rest answer x ht' hasked hx hrest hq =>
    cases rest with
    | nil => exact absurd hq hne
    | cons d rest =>
      rw [handOut_of_queue_eq_cons hq]
      exact .failed ht' hasked hx (suffix_of_cons hrest) rfl
  | @ending t' n ht' hended hdepth hq =>
    cases n with
    | zero => exact shape_handOut_end ht hmark hended hq
    | succ n =>
      rw [List.replicate_succ, List.cons_append] at hq
      rw [handOut_of_queue_eq_cons hq]
      exact .ending ht' hended hdepth rfl

/-- **What a request leaves behind.** -/
theorem shape_of_leaves {k : Nat} {e : Engine} {lead : List CodePoint} {error : Option ReadError}
    {answer : Except ReadError (Option CodePoint)} (ht : t ∈ past) (hasked : t.Asked lead answer)
    (hleaves : Leaves t.engine lead answer error e) (hlayout : e.layout = t.engine.layout)
    (hnext : t.next.outcome = ((t.fed k e).reply error).outcome) :
    Shape past ((t.fed k e).reply error).next.engine := by
  have hmark : (t.fed k e).engine.dedentToken = t.engine.dedentToken := by
    show (⟨.dedent, e.layout.dedentMark⟩ : Token) = _
    rw [hlayout]
    rfl
  have hrest : lead <:+ lead := List.suffix_refl lead
  have hne (herror : error = none) : (t.fed k e).engine.queue ≠ [] := by
    subst herror
    exact hleaves.queue_ne_nil
  cases hleaves with
  | fail x hq => exact .failed ht hasked hnext hrest hq
  | misfit x hc hq => exact .failed ht hasked hnext hrest hq
  | stop hended hq =>
    have hshape : Shape past (t.fed k e).engine := .last ht hasked hended hrest hq
    exact hshape.handOut (hne rfl) ht hmark
  | @pass _ c hc hq =>
    -- a character that passes is handed out at once, unless whitespace stands before it
    cases lead with
    | nil =>
      show Shape past (t.fed k e).handOut.next.engine
      rw [handOut_of_queue_eq_cons hq]
      exact .empty rfl
    | cons d lead =>
      have hends : t.engine.Ends c := hc.ends (hasked.holds d List.mem_cons_self)
      have hshape : Shape past (t.fed k e).engine := .blank ht hasked hends hrest hq
      exact hshape.handOut (hne rfl) ht hmark
  | @level _ c depth hc hq =>
    have hkept : t.kept lead <:+ t.kept lead := List.suffix_refl _
    rw [Layout.marks] at hq
    split at hq
    · -- the one mark of an opening block is handed out at once
      show Shape past (t.fed k e).handOut.next.engine
      rw [handOut_of_queue_eq_cons hq]
      exact .line (n := 0) ht hasked hc hkept (fun _ => rfl) rfl
    · rw [List.map_replicate] at hq
      have hshape : Shape past (t.fed k e).engine := .line ht hasked hc hkept (fun _ => rfl) hq
      exact hshape.handOut (hne rfl) ht hmark

/-- **A request keeps the shape of the queue**, and what it leaves behind comes from itself or from
a turn before it. -/
theorem Shape.next (h : Shape past s.engine) : Shape (past ++ [s]) s.next.next.engine := by
  have hs : s ∈ past ++ [s] := by simp
  cases hclosed : s.closed with
  | true =>
    rw [next_of_closed hclosed]
    exact h.mono [s]
  | false =>
    rcases next_hears hclosed with ⟨hne, hnext⟩ | ⟨hq, k, error, e, told, hhears, hnext⟩
    · rw [hnext]
      exact (h.mono [s]).handOut hne hs rfl
    · have houtcome : s.next.outcome = ((s.fed k e).reply error).outcome := by rw [hnext]; rfl
      rw [hnext, Reply.next_after]
      cases hended : s.engine.exhausted with
      | true =>
        -- the end has been met before, and it is queued once more
        obtain ⟨-, rfl, rfl⟩ := hhears.eq_of_exhausted hended
        have hend : (s.fed k (s.engine.enqueue none)).engine.queue = [none] := by
          show s.engine.queue ++ [none] = [none]
          rw [hq, List.nil_append]
        exact shape_handOut_end hs rfl hended hend
      | false =>
        have hnil : s.engine.queue = held [] := hq
        -- whitespace is held back, and one answer behind it decides what is queued
        obtain ⟨lead, answer, hlead, hanswers, hleaves⟩ := hhears.exists_leaves hended hnil
        rw [List.nil_append] at hleaves
        have hk : k = lead.length + 1 := by
          have := congrArg List.length hanswers
          simpa using this
        have hasked : s.Asked lead answer := ⟨hclosed, hq, hended, hlead, hk ▸ hanswers⟩
        exact shape_of_leaves hs hasked hleaves hhears.layout_eq houtcome

/-- **The shape of the queue is kept**, whatever is done. -/
theorem journal_shape :
    Journal (fun _ => True) fun past (s : Stream σ) => Shape past s.engine where
  next h := h.next
  close _ h := h
  adopt {past s convention} _ h := by
    obtain ⟨l, t, heq⟩ := s.engine.alike_adopt convention
    rw [heq]
    exact h.congr (List.Subset.refl past) rfl rfl rfl

/-! ### What follows from the shape -/

/-- The queue is a list of tokens without indents, and at the end of the input an entry for the end
may come behind them. -/
theorem Shape.exists_tokens {e : Engine} (h : Shape past e) :
    ∃ tokens : List Token, (∀ t ∈ tokens, t.role ≠ .indent) ∧
      (e.queue = tokens.map some ∨
        e.exhausted = true ∧ e.queue = tokens.map some ++ [none]) := by
  have hcontent (run : List CodePoint) : ∀ t ∈ run.map Token.content, t.role ≠ .indent := by
    intro t ht
    obtain ⟨c, -, rfl⟩ := List.mem_map.1 ht
    simp
  have hheld (run : List CodePoint) : held run = (run.map Token.content).map some := by
    rw [held, List.map_map]
    rfl
  have hmarks (n : Nat) (t : Stream σ) :
      ∀ u ∈ List.replicate n t.engine.dedentToken, u.role ≠ .indent := by
    intro u hu
    rw [List.eq_of_mem_replicate hu]
    simp [dedentToken]
  cases h with
  | empty hq => exact ⟨[], by simp, .inl hq⟩
  | @blank t lead rest c ht hasked hc hrest hq =>
    refine ⟨(rest ++ [c]).map Token.content, hcontent _, .inl ?_⟩
    rw [hq, hheld]
    simp
  | @last t lead rest ht hasked hended hrest hq =>
    exact ⟨rest.map Token.content, hcontent _, .inr ⟨hended, by rw [hq, hheld]⟩⟩
  | @line t lead rest c n ht hasked hc hrest hwhole hq =>
    refine ⟨List.replicate n t.engine.dedentToken ++ (rest ++ [c]).map Token.content, ?_,
      .inl ?_⟩
    · exact List.forall_mem_append.2 ⟨hmarks n t, hcontent _⟩
    · rw [hq, hheld]
      simp
  | @failed t lead rest answer x ht hasked hx hrest hq =>
    exact ⟨rest.map Token.content, hcontent _, .inl (hq.trans (hheld rest))⟩
  | @ending t n ht hended hdepth hq =>
    refine ⟨List.replicate n t.engine.dedentToken, hmarks n t, .inr ⟨hended, ?_⟩⟩
    rw [hq, List.map_replicate]

/-- **The end of the input is queued once at most, as the last, and when it has been met; an indent
is never queued.** -/
theorem Shape.entries {e : Engine} (h : Shape past e) :
    none ∉ e.queue.dropLast ∧ (none ∈ e.queue → e.exhausted = true) ∧
      ∀ t, some t ∈ e.queue → t.role ≠ .indent := by
  obtain ⟨tokens, htokens, hq | ⟨hended, hq⟩⟩ := h.exists_tokens
  · have hnone : none ∉ e.queue := by simp [hq]
    refine ⟨fun hmem => hnone (List.mem_of_mem_dropLast hmem), fun hmem => absurd hmem hnone, ?_⟩
    intro t ht
    rw [hq] at ht
    exact htokens t (by simpa using ht)
  · refine ⟨?_, fun _ => hended, fun t ht => ?_⟩
    · rw [hq, List.dropLast_concat]
      simp
    · rw [hq] at ht
      exact htokens t (by simpa using ht)

/-! ### Conventions that stay -/

/-- A request changes no convention. -/
theorem conventions_next (s : Stream σ) :
    s.next.next.engine.layout = s.engine.layout ∧
      s.next.next.engine.tracker.rules = s.engine.tracker.rules := by
  have hhanded (t : Stream σ) : t.handOut.next.engine.layout = t.engine.layout ∧
      t.handOut.next.engine.tracker.rules = t.engine.tracker.rules := by
    obtain ⟨stack, queue, lineStart, dedents, hengine⟩ := t.exists_engine_handOut
    rw [hengine]
    exact ⟨rfl, rfl⟩
  cases hclosed : s.closed with
  | true =>
    rw [next_of_closed hclosed]
    exact ⟨rfl, rfl⟩
  | false =>
    rcases next_hears hclosed with ⟨-, hnext⟩ | ⟨-, k, error, e, told, hhears, hnext⟩
    · rw [hnext]
      exact hhanded s
    · rw [hnext, Reply.next_after]
      cases error with
      | some x => exact ⟨hhears.layout_eq, hhears.rules_eq⟩
      | none =>
        obtain ⟨hlayout, hrules⟩ := hhanded (s.fed k e)
        exact ⟨hlayout.trans hhears.layout_eq, hrules.trans hhears.rules_eq⟩

/-- As long as the conventions are left alone all turns are under the same. -/
theorem journal_conventions (l : Layout) (rules : List Rule) :
    Journal (fun _ => False) fun past (s : Stream σ) =>
      ∀ t ∈ past ++ [s], t.engine.layout = l ∧ t.engine.tracker.rules = rules where
  next {past s} h t ht := by
    rcases List.mem_append.1 ht with ht | ht
    · exact h t ht
    · obtain rfl := List.mem_singleton.1 ht
      obtain ⟨hlayout, hrules⟩ := s.conventions_next
      obtain ⟨hlayout', hrules'⟩ := h s (by simp)
      exact ⟨hlayout.trans hlayout', hrules.trans hrules'⟩
  close {past s} b h t ht := by
    rcases List.mem_append.1 ht with hpast | hlast
    · exact h t (List.mem_append_left _ hpast)
    · obtain rfl := List.mem_singleton.1 hlast
      exact h s (by simp)
  adopt hfalse _ := hfalse.elim

/-! ### The whole -/

/-- **The shape of the queue.**  Whatever has been done to a stream, what is queued is the rest of
what one of its requests has left: of the whitespace of a line without content and what ended it, of
the closing marks of a line with its whitespace and its character, of the whitespace of a line that
could not be read, or of the closing marks at the end of the input and the end.  The end is queued
once at most, as the last, and when it has been met; an indent is never queued.  As long as the
conventions are left alone all of this is under the same.  When a line is decided its whitespace is
what is queued, and only then do levels change before the end of the input. -/
theorem queue_shape (source : σ) (name : Option String) (l : Layout) (rules : List Rule)
    (ops : List Operation) :
    let s := ((start source name l rules).run ops).2
    let past := (start source name l rules).turnsIn ops
    Shape past s.engine ∧
      (none ∉ s.engine.queue.dropLast ∧ (none ∈ s.engine.queue → s.engine.exhausted = true) ∧
        ∀ u, some u ∈ s.engine.queue → u.role ≠ .indent) ∧
      ((∀ op ∈ ops, op.Within fun _ => False) →
        ∀ t ∈ past ++ [s], t.engine.layout = l ∧ t.engine.tracker.rules = rules) ∧
      (∀ t lead d, s.Settles t lead d →
        t.engine.queue = held lead ∧ ∃ told, s.next = (serve (t.settle lead d)).after told) ∧
      ((∃ t lead d, s.Settles t lead d) ∨ s.next.next.engine.stack = s.engine.stack ∨
        s.next.next.engine.exhausted = true) := by
  intro s past
  have hshape : Shape ([] ++ past) s.engine :=
    journal_shape.run (.empty rfl) fun op _ => op.within_true
  rw [List.nil_append] at hshape
  refine ⟨hshape, hshape.entries, fun hops => ?_, fun t lead d h => h.queue_eq,
    settles_or_stack_eq (pending_run source name l rules ops)⟩
  have hstart : ∀ t ∈ [] ++ [start source name l rules],
      t.engine.layout = l ∧ t.engine.tracker.rules = rules := by
    intro t ht
    obtain rfl := List.mem_singleton.1 ht
    exact ⟨rfl, rfl⟩
  have hrun : ∀ t ∈ ([] ++ past) ++ [s], t.engine.layout = l ∧ t.engine.tracker.rules = rules :=
    (journal_conventions l rules).run hstart hops
  rwa [List.nil_append] at hrun

/-- A block in a source that fails within the whitespace of a line. -/
def cutBlock : ScriptSource :=
  { answers := "a\n b\n  ".codePoints.map (fun c => .ok (some c)) ++
      [.error (.raised "OSError" "gone"), .ok (some 'c')] }

/-- The whitespace that has been read when the source fails stays queued, under the conventions of
the start; and before the block is read its line is decided with its whitespace in the queue. -/
theorem queue_shape_cutBlock :
    let s := start cutBlock none {} []
    let ops : List Operation := [.read (.int 9)]
    (∀ op ∈ ops, op.Within fun _ => False) ∧
      (s.run ops).2.engine.queue = held [' ', ' '] ∧
      Shape (s.turnsIn ops) (s.run ops).2.engine ∧
      (∀ t ∈ s.turnsIn ops ++ [(s.run ops).2], t.engine.layout = {} ∧ t.engine.tracker.rules = []) ∧
      ∃ t lead d, (s.run [.read (.int 2)]).2.Settles t lead d ∧ t.engine.queue = held lead := by
  intro s ops
  have hops : ∀ op ∈ ops, op.Within fun _ => False := by simp [ops, Operation.Within]
  obtain ⟨hshape, -, hsame, -⟩ := queue_shape cutBlock none {} [] ops
  obtain ⟨-, -, -, hqueue, hlevels⟩ := queue_shape cutBlock none {} [] [.read (.int 2)]
  refine ⟨hops, by decide +kernel, hshape, hsame hops, ?_⟩
  have hopens : (s.run [.read (.int 2)]).2.next.next.engine.stack ≠
      (s.run [.read (.int 2)]).2.engine.stack := by decide +kernel
  have hmore : (s.run [.read (.int 2)]).2.next.next.engine.exhausted ≠ true := by decide +kernel
  obtain ⟨t, lead, d, hsettles⟩ := hlevels.resolve_right fun h => h.elim hopens hmore
  exact ⟨t, lead, d, hsettles, (hqueue t lead d hsettles).1⟩

end Stream

end Offside
