import Offside.Proofs.Feed
import Offside.Proofs.Marks
import Offside.Source.File
import Offside.Stream.Configured

/-!
# Reading an open file

A stream looks at its source only through the answers to its requests.  So a file that can be read
to its end is read like its text, and one that cannot never comes to an end: reading it fails.

When a text has been read to the end, the marks that were counted are those that were handed out,
and each block that was opened has been closed.

## Main definitions

* `CharSource.Mirrors` — one source answers like another.
* `Stream.mapSource` — a stream over the other source.
* `Stream.Going` — the end of the input has not been met, and is not to come.

## Main results

* `Stream.drain_mapSource` — a stream over a source that answers alike is read alike.
* `Stream.drain_ne_ok_of_going` — without an end there is no success.
* `Stream.counts_of_drain` — what was counted is what was handed out.
-/

namespace Offside

section Mirrors

variable {σ τ : Type} [CharSource σ] [CharSource τ]

/-! ### Sources that answer alike -/

/-- One source answers like another, and goes on to do so. -/
def CharSource.Mirrors (f : σ → τ) : Prop :=
  ∀ source : σ, CharSource.pull (f source) =
    ⟨(CharSource.pull source).outcome, f (CharSource.pull source).next,
      (CharSource.pull source).notices⟩

namespace Stream

/-- A stream over another source. -/
def mapSource (f : σ → τ) (s : Stream σ) : Stream τ where
  source := f s.source
  name := s.name
  engine := s.engine
  closed := s.closed

variable {f : σ → τ} {s s' : Stream σ}

theorem pull_mapSource {outcome : Except ReadError (Option CodePoint)} {notices : List Notice}
    (hf : CharSource.Mirrors f) (h : s.pull = ⟨outcome, s', notices⟩) :
    (s.mapSource f).pull = ⟨outcome, s'.mapSource f, notices⟩ := by
  unfold pull at h ⊢
  by_cases hended : s.engine.exhausted = true
  · rw [if_pos hended] at h
    obtain ⟨rfl, rfl, rfl⟩ : _ ∧ _ ∧ _ := by simpa using h
    exact if_pos hended
  · rw [if_neg hended] at h
    have hended' : ¬ (s.mapSource f).engine.exhausted = true := hended
    have hpull : CharSource.pull (s.mapSource f).source = _ := hf s.source
    rw [if_neg hended', hpull]
    cases hsource : CharSource.pull s.source with
    | mk answer source told =>
      rw [hsource] at h
      rcases answer with x | _ | c
      all_goals
        obtain ⟨rfl, rfl, rfl⟩ : _ ∧ _ ∧ _ := by simpa using h
        rfl

omit [CharSource σ] [CharSource τ] in
theorem handOut_mapSource (f : σ → τ) (s : Stream σ) :
    (s.mapSource f).handOut =
      ⟨s.handOut.outcome, s.handOut.next.mapSource f, s.handOut.notices⟩ := rfl

theorem request_mapSource (hf : CharSource.Mirrors f) (s : Stream σ) :
    (s.mapSource f).request =
      ⟨s.request.outcome, s.request.next.mapSource f, s.request.notices⟩ := by
  fun_induction request s with
  | case1 s e s' notices h => rw [request_eq, pull_mapSource hf h]
  | case2 s s' notices h =>
    rw [request_eq, pull_mapSource hf h]
    rfl
  | case3 s c s' notices h hc ih =>
    have hc' : (s'.mapSource f).engine.holds c = true := hc
    have hhold : (s'.mapSource f).hold c = (s'.hold c).mapSource f := rfl
    rw [request_eq, pull_mapSource hf h]
    simp only [answer, if_pos hc', hhold, ih]
    rfl
  | case4 s c s' notices h hc e hx =>
    have hc' : ¬ (s'.mapSource f).engine.holds c = true := hc
    have hx' : (s'.mapSource f).engine.release (s'.mapSource f).name c = .error e := hx
    rw [request_eq, pull_mapSource hf h]
    simp only [answer, if_neg hc', hx']
    simp [Reply.after]
  | case5 s c s' notices h hc engine more he =>
    have hc' : ¬ (s'.mapSource f).engine.holds c = true := hc
    have he' : (s'.mapSource f).engine.release (s'.mapSource f).name c = .ok (engine, more) := he
    have hreleased : ({ s'.mapSource f with engine := engine } : Stream τ) =
        ({ s' with engine := engine } : Stream σ).mapSource f := rfl
    rw [request_eq, pull_mapSource hf h]
    simp only [answer, if_neg hc', he', hreleased, handOut_mapSource]
    simp [Reply.after]

theorem next_mapSource (hf : CharSource.Mirrors f) (s : Stream σ) :
    (s.mapSource f).next = ⟨s.next.outcome, s.next.next.mapSource f, s.next.notices⟩ := by
  by_cases hclosed : s.closed = true
  · rw [next_of_closed hclosed]
    exact next_of_closed hclosed
  · rw [Bool.not_eq_true] at hclosed
    have hclosed' : (s.mapSource f).closed = false := hclosed
    by_cases hq : s.engine.queue = []
    · have hq' : (s.mapSource f).engine.queue = [] := hq
      rw [next_eq_request hclosed hq, next_eq_request hclosed' hq', request_mapSource hf]
    · have hq' : (s.mapSource f).engine.queue ≠ [] := hq
      rw [next_of_queue_ne_nil hclosed hq, next_of_queue_ne_nil hclosed' hq', handOut_mapSource]

/-- **A stream over a source that answers alike is read alike.** -/
theorem drain_mapSource (hf : CharSource.Mirrors f) (s : Stream σ) :
    (s.mapSource f).drain =
      (s.drain.1, ⟨s.drain.2.outcome, s.drain.2.next.mapSource f, s.drain.2.notices⟩) := by
  rw [drain_eq, next_mapSource hf]
  fun_induction drain s with
  | case1 s e s' notices hnext => rw [hnext]; rfl
  | case2 s s' notices hnext => rw [hnext]; rfl
  | case3 s t s' notices hnext tokens reply hdrain ih =>
    rw [← next_mapSource hf, ← drain_eq, hdrain] at ih
    rw [hnext]
    simp only [drainAfter, ih]
    rfl

end Stream

end Mirrors

/-! ### Inputs without an end -/

/-- No character is the end of the input. -/
theorem Engine.exhausted_release {e e' : Engine} {file : Option String} {c : CodePoint}
    {notices : List Notice} (h : e.release file c = .ok (e', notices)) :
    e'.exhausted = e.exhausted := by
  rw [release] at h
  split at h
  · obtain ⟨rfl, -⟩ : _ ∧ _ := by simpa using h
    rfl
  · rw [settle_eq] at h
    cases hstack : e.stack.advance? e.lead with
    | none => simp [hstack] at h
    | some stack =>
      obtain ⟨rfl, -⟩ : _ ∧ _ := by simpa [hstack] using h
      rfl

/-- What holds of a source that has no end, and goes on to hold. -/
def CharSource.Endless {σ : Type} [CharSource σ] (P : σ → Prop) : Prop :=
  ∀ source, P source →
    (CharSource.pull source).outcome ≠ .ok none ∧ P (CharSource.pull source).next

namespace Stream

variable {σ : Type} {P : σ → Prop} {s s' t : Stream σ} {notices : List Notice}
  {outcome : Except ReadError (Option Token)}

/-- The end of the input has not been met. -/
structure Going (P : σ → Prop) (s : Stream σ) : Prop where
  source : P s.source
  more : s.engine.exhausted = false
  queue : none ∉ s.engine.queue

variable [CharSource σ]

theorem Going.pull {answer : Except ReadError (Option CodePoint)} (hP : CharSource.Endless P)
    (h : Going P s) (hpull : s.pull = ⟨answer, s', notices⟩) : answer ≠ .ok none ∧ P s'.source := by
  obtain ⟨hend, hnext⟩ := hP s.source h.source
  unfold Stream.pull at hpull
  rw [if_neg (by simp [h.more])] at hpull
  split at hpull <;> next hsource =>
    rw [hsource] at hend hnext
    obtain ⟨rfl, rfl, -⟩ : _ ∧ _ ∧ _ := by simpa using hpull
    exact ⟨hend, hnext⟩

omit [CharSource σ] in
/-- A token that is handed out does not end the input. -/
theorem Going.handOut (h : Going P s) (hne : s.engine.queue ≠ []) :
    s.handOut.outcome ≠ .ok none ∧ Going P s.handOut.next := by
  cases hqueue : s.engine.queue with
  | nil => exact absurd hqueue hne
  | cons entry rest =>
    have hqueue' := h.queue
    rw [hqueue, List.mem_cons, not_or] at hqueue'
    cases entry with
    | none => exact absurd rfl hqueue'.1
    | some x =>
      rw [handOut_of_queue_eq_cons hqueue]
      exact ⟨by simp, h.source, h.more, hqueue'.2⟩

omit [CharSource σ] in
theorem Going.queue_eq (h : Going P s) : s.engine.queue = s.engine.due.map some := by
  have hqueue := h.queue
  rw [Engine.due]
  generalize s.engine.queue = queue at hqueue ⊢
  induction queue with
  | nil => rfl
  | cons entry rest ih =>
    rw [List.mem_cons, not_or] at hqueue
    cases entry with
    | none => exact absurd rfl hqueue.1
    | some x => rw [List.reduceOption_cons_of_some, List.map_cons, ← ih hqueue.2]

omit [CharSource σ] in
/-- A character that arrives does not end the input. -/
theorem Going.arrive {c : CodePoint} (h : Going P s) (hsource : P s'.source)
    (hengine : s'.engine = s.engine.arrive c) : Going P s' where
  source := hsource
  more := by rw [hengine, Engine.exhausted_arrive, h.more]
  queue := by
    rw [hengine, Engine.queue_arrive]
    exact h.queue

theorem Request.going (hP : CharSource.Endless P) (hreq : Request s outcome t) (h : Going P s) :
    outcome ≠ .ok none ∧ Going P t := by
  induction hreq with
  | fail hpull =>
    obtain ⟨-, hsource⟩ := h.pull hP hpull
    have hengine := engine_of_pull_error hpull
    exact ⟨by simp, hsource, by rw [hengine, h.more], by rw [hengine]; exact h.queue⟩
  | stop hpull => exact absurd rfl (h.pull hP hpull).1
  | @hold s s' t c notices outcome hpull hc hrest ih =>
    have harrived := h.arrive (h.pull hP hpull).2 (engine_of_pull hpull).1
    refine ih ⟨harrived.source, harrived.more, ?_⟩
    simpa [Stream.hold, Engine.enqueue] using harrived.queue
  | @release s s' c notices told e hpull hc he =>
    have harrived := h.arrive (h.pull hP hpull).2 (engine_of_pull hpull).1
    obtain ⟨out, hout⟩ := Engine.queue_of_release harrived.queue_eq he
    have hreleased : Going P { s' with engine := e } :=
      ⟨harrived.source, by rw [Engine.exhausted_release he, harrived.more], by simp [hout]⟩
    exact hreleased.handOut (by simp [hout])
  | misfit hpull hc hx =>
    exact ⟨by simp, h.arrive (h.pull hP hpull).2 (engine_of_pull hpull).1⟩

theorem Going.next (hP : CharSource.Endless P) (h : Going P s) :
    s.next.outcome ≠ .ok none ∧ Going P s.next.next := by
  rcases s.next_cases with hnext | ⟨hq, hnext⟩ | ⟨-, hreq⟩
  · rw [hnext]
    exact ⟨by simp, h⟩
  · rw [hnext]
    exact h.handOut hq
  · exact hreq.going hP h

/-- **Without an end there is no success.** -/
theorem drain_ne_ok_of_going (hP : CharSource.Endless P) (h : Going P s) :
    s.drain.2.outcome ≠ .ok () := by
  fun_induction drain s with
  | case1 s e s' notices hnext => simp
  | case2 s s' notices hnext =>
    have hend := (h.next hP).1
    rw [hnext] at hend
    exact absurd rfl hend
  | case3 s t s' notices hnext tokens reply hdrain ih =>
    have hgoing := (h.next hP).2
    rw [hnext] at hgoing
    have hrest := ih hgoing
    rw [hdrain] at hrest
    exact hrest

end Stream

/-! ### What was counted -/

/-- A line that opens a level is given a mark for it. -/
theorem Layout.countP_marks (l : Layout) {before after : Nat} (h : after ≤ before + 1) :
    (l.marks before after).countP (·.role = .indent) = after - before := by
  rw [marks]
  split
  · next hlt =>
    obtain rfl : after = before + 1 := by omega
    simp
  · next hle => simp [Nat.sub_eq_zero_of_le (not_lt.1 hle)]

/-- Text opens no block. -/
theorem Token.countP_map_content (cs : List CodePoint) :
    (cs.map Token.content).countP (·.role = .indent) = 0 := by
  rw [List.countP_map, List.countP_eq_zero]
  intro c hc
  simp

namespace Engine

variable {e e' : Engine} {file : Option String} {c : CodePoint} {text : List CodePoint}
  {tokens : List Token} {notices : List Notice}

/-- The blocks that a character opens are counted. -/
theorem indents_feed (he : e.Leading) (h : e.feed file c = .ok (tokens, e', notices)) :
    e'.indents = e.indents + tokens.countP (·.role = .indent) := by
  have hfeeds := feeds_feed e file c
  rw [h] at hfeeds
  cases hfeeds with
  | hold hesc hline hc => simp [enqueue]
  | pass hpass =>
    rw [he.due_eq, ← List.map_singleton, ← List.map_append, Token.countP_map_content]
    simp [Engine.pass, delivered, observe]
  | level hdec stack hstack =>
    have hle : stack.depth ≤ e.depth + 1 := Stack.depth_advance?_le hstack
    have hkept : (if e.layout.keepWhitespace then e.due else []) ++ [Token.content c] =
        ((if e.layout.keepWhitespace then e.lead else []) ++ [c]).map Token.content := by
      rw [List.map_append, List.map_singleton, he.due_eq]
      split <;> rfl
    rw [List.append_assoc, hkept, List.countP_append, Token.countP_map_content,
      Layout.countP_marks _ hle]
    simp [level, delivered, relevel, depth]

/-- The blocks that a text opens are counted. -/
theorem indents_feedAll (he : e.Leading) (h : e.feedAll file text = ⟨tokens, .ok e', notices⟩) :
    e'.indents = e.indents + tokens.countP (·.role = .indent) := by
  revert he
  refine feedAll_induction (P := fun e _ tokens e' _ => e.Leading →
    e'.indents = e.indents + tokens.countP (·.role = .indent)) ?_ ?_ h
  · intro e he
    rfl
  · intro e e₁ e' c rest out tokens told notices hc ih he
    rw [ih (he.feed hc), indents_feed he hc, List.countP_append, Nat.add_assoc]

end Engine

namespace Stream

variable {e : Engine} {name : Option String} {text : List CodePoint} {tokens : List Token}
  {next : Stream TextSource} {notices : List Notice}

/-- A text that is read without an error is fed without one. -/
theorem exists_feedAll_of_drain_ok (he : e.Leading) (hq : e.queue = [])
    (h : (ofText name e text).drain = (tokens, ⟨.ok (), next, notices⟩)) :
    ∃ out e' told b, e.feedAll name text = ⟨out, .ok e', told⟩ ∧
      tokens = out ++ (e'.due ++ List.replicate e'.depth e'.dedentToken) ∧
      next = (ofText name e'.finish []).ended b := by
  rcases hfeed : e.feedAll name text with ⟨out, x | e', told⟩
  · obtain ⟨before, c, rest, e', rfl, hbefore, hc⟩ := Engine.exists_of_feedAll_eq_error hfeed
    rw [drain_of_feed_error he hq hbefore hc] at h
    simp at h
  · obtain ⟨b, hdrain⟩ := drain_of_feedAll_ok he hq hfeed
    rw [hdrain] at h
    obtain ⟨rfl, rfl, -⟩ : _ ∧ _ ∧ _ := by simpa using h
    exact ⟨out, e', told, b, rfl, rfl, rfl⟩

/-- **What was counted is what was handed out**, and each block that was opened is closed. -/
theorem counts_of_drain {l : Layout} {rules : List Rule}
    (h : (ofText name (.fresh l rules) text).drain = (tokens, ⟨.ok (), next, notices⟩)) :
    next.engine.indents = tokens.countP (·.role = .indent) ∧
      next.engine.dedents = tokens.countP (·.role = .indent) := by
  have he : (Engine.fresh l rules).Leading := Engine.leading_fresh l rules
  obtain ⟨out, e', told, b, hfeed, rfl, rfl⟩ := exists_feedAll_of_drain_ok he rfl h
  have hindents : e'.indents = out.countP (·.role = .indent) := by
    rw [Engine.indents_feedAll he hfeed]
    exact Nat.zero_add _
  have hlast :
      (e'.due ++ List.replicate e'.depth e'.dedentToken).countP (·.role = .indent) = 0 := by
    rw [List.countP_append, (he.feedAll hfeed).due_eq, Token.countP_map_content]
    simp [Engine.dedentToken]
  have haccount : Engine.Account ([] ++ ((ofText name (.fresh l rules) text).run [.iterate]).1)
      ((ofText name (.fresh l rules) text).run [.iterate]).2.engine :=
    invariant_account.run (Engine.account_fresh l rules) (by simp [Operation.Within])
  have hcounted := haccount.counted
  simp only [run, perform, h] at hcounted
  rw [List.countP_append, hlast, Nat.add_zero, ← hindents]
  exact ⟨rfl, hcounted.symm⟩

end Stream

end Offside
