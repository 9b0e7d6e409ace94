import Offside.Proofs.Feed
import Offside.Proofs.Operation

/-!
# What a request hears

A request learns nothing from its source but answers, one after the other, and it takes them up to
the first that is no whitespace to be held back.  What it does is what the analysis makes of these
answers.  So a request is described by two things: the answers that it **hears**, and the analysis
after them, from which the first entry of the queue is handed out.

This says all about a request.  There are always answers to be heard, and if the analysis can make
something of the first answers of a source, then that is what a request to a stream over this source
does.  Whatever is shown of two analyses that hear the same is thereby shown of two streams.

## Main definitions

* `CharSource.asked`, `CharSource.answers` — a source after some requests, and its answers to them.
* `Engine.receive`, `Engine.holdBack` — the analysis with one more answer.
* `Engine.Hears` — what the analysis makes of some answers.
* `Engine.Pending` — what is queued between two requests.
* `Stream.reply` — what a stream hands out when it has heard.

## Main results

* `Stream.next_of_hears` — a request does what the analysis makes of the answers.
* `Stream.next_hears` — every request hears something, unless something is queued.
-/

namespace Offside

/-! ### Answers -/

namespace CharSource

variable {σ : Type} [CharSource σ]

/-- A source after some requests. -/
def asked (source : σ) : Nat → σ
  | 0 => source
  | n + 1 => asked (pull source).next n

/-- The answers of a source to the first requests. -/
def answers (source : σ) : Nat → List (Except ReadError (Option CodePoint))
  | 0 => []
  | n + 1 => (pull source).outcome :: answers (pull source).next n

@[simp] theorem asked_zero (source : σ) : asked source 0 = source := rfl

@[simp] theorem answers_zero (source : σ) : answers source 0 = [] := rfl

theorem answers_succ (source : σ) (n : Nat) :
    answers source (n + 1) = (pull source).outcome :: answers (pull source).next n := rfl

@[simp] theorem length_answers (source : σ) (n : Nat) : (answers source n).length = n := by
  induction n generalizing source with
  | zero => rfl
  | succ n ih => rw [answers_succ, List.length_cons, ih]

theorem asked_add (source : σ) (m n : Nat) :
    asked source (m + n) = asked (asked source m) n := by
  induction m generalizing source with
  | zero => rw [Nat.zero_add, asked_zero]
  | succ m ih =>
    rw [Nat.succ_add]
    exact ih _

theorem answers_add (source : σ) (m n : Nat) :
    answers source (m + n) = answers source m ++ answers (asked source m) n := by
  induction m generalizing source with
  | zero => rw [Nat.zero_add, answers_zero, asked_zero, List.nil_append]
  | succ m ih =>
    rw [Nat.succ_add, answers_succ, ih]
    rfl

theorem asked_succ (source : σ) (n : Nat) :
    asked source (n + 1) = (pull (asked source n)).next := asked_add source n 1

theorem answers_succ_last (source : σ) (n : Nat) :
    answers source (n + 1) = answers source n ++ [(pull (asked source n)).outcome] :=
  answers_add source n 1

theorem prefix_answers (source : σ) {m n : Nat} (h : m ≤ n) :
    answers source m <+: answers source n := by
  obtain ⟨k, rfl⟩ := Nat.exists_eq_add_of_le h
  rw [answers_add]
  exact List.prefix_append _ _

theorem of_answers_eq_cons {source : σ} {k : Nat} {o : Except ReadError (Option CodePoint)}
    {rest : List (Except ReadError (Option CodePoint))} (h : answers source k = o :: rest) :
    ∃ j, k = j + 1 ∧ (pull source).outcome = o ∧ answers (pull source).next j = rest := by
  cases k with
  | zero => simp at h
  | succ j =>
    rw [answers_succ, List.cons.injEq] at h
    exact ⟨j, rfl, h⟩

theorem of_answers_eq_singleton {source : σ} {k : Nat} {o : Except ReadError (Option CodePoint)}
    (h : answers source k = [o]) : k = 1 ∧ (pull source).outcome = o := by
  obtain ⟨j, rfl, hpull, hrest⟩ := of_answers_eq_cons h
  have hlength := congrArg List.length hrest
  rw [length_answers, List.length_nil] at hlength
  exact ⟨congrArg Nat.succ hlength, hpull⟩

/-- Two sources with the same first answers have the same answers to fewer requests. -/
theorem answers_eq_of_le {τ : Type} [CharSource τ] {a : σ} {b : τ} {m n : Nat}
    (h : answers a n = answers b n) (hle : m ≤ n) : answers a m = answers b m := by
  have ha := List.prefix_iff_eq_take.1 (prefix_answers a hle)
  have hb := List.prefix_iff_eq_take.1 (prefix_answers b hle)
  rw [length_answers] at ha hb
  rw [ha, hb, h]

/-- What two sources answer after some requests is the same if all of it is. -/
theorem answers_asked_eq {τ : Type} [CharSource τ] {a : σ} {b : τ} {m n : Nat}
    (h : answers a (m + n) = answers b (m + n)) :
    answers (asked a m) n = answers (asked b m) n := by
  rw [answers_add, answers_add] at h
  exact List.append_inj_right h (by simp)

end CharSource

/-! ### The analysis hears -/

namespace Engine

/-- The analysis when the source has answered, before it makes anything of the answer. -/
def receive (e : Engine) : Except ReadError (Option CodePoint) → Engine
  | .error _ => e
  | .ok none => e.finish
  | .ok (some c) => e.arrive c

/-- The analysis when one more character of the leading whitespace has arrived. -/
def holdBack (e : Engine) (c : CodePoint) : Engine := (e.arrive c).enqueue (some (.content c))

section HoldBack

variable (e : Engine) (c : CodePoint)

@[simp] theorem layout_holdBack : (e.holdBack c).layout = e.layout := e.layout_arrive c

@[simp] theorem stack_holdBack : (e.holdBack c).stack = e.stack := e.stack_arrive c

@[simp] theorem tracker_holdBack : (e.holdBack c).tracker = e.tracker := e.tracker_arrive c

@[simp] theorem lineStart_holdBack : (e.holdBack c).lineStart = e.lineStart :=
  e.lineStart_arrive c

@[simp] theorem exhausted_holdBack : (e.holdBack c).exhausted = e.exhausted :=
  e.exhausted_arrive c

@[simp] theorem indents_holdBack : (e.holdBack c).indents = e.indents := e.indents_arrive c

@[simp] theorem dedents_holdBack : (e.holdBack c).dedents = e.dedents := e.dedents_arrive c

@[simp] theorem queue_holdBack :
    (e.holdBack c).queue = e.queue ++ [some (.content c)] := by
  simp [holdBack, enqueue]

theorem holds_holdBack (d : CodePoint) : (e.holdBack c).holds d = e.holds d := by
  simp [holds, escapes]

@[simp] theorem due_enqueue_none : (e.enqueue none).due = e.due := by
  simp [due, enqueue, List.reduceOption]

theorem due_holdBack : (e.holdBack c).due = e.due ++ [.content c] := by
  rw [holdBack, due_enqueue_some, due_arrive]

end HoldBack

/-- What the analysis makes of the answers that a request takes from its source: in the end there is
something to hand out, or an error. -/
inductive Hears (file : Option String) :
    Engine → List (Except ReadError (Option CodePoint)) → Option ReadError → Engine → Prop where
  /-- The end has been met before, and the source is not asked. -/
  | ended {e : Engine} (hended : e.exhausted = true) : Hears file e [] none (e.enqueue none)
  /-- The source fails. -/
  | fail {e : Engine} (hmore : e.exhausted = false) (x : ReadError) :
      Hears file e [.error x] (some x) e
  /-- The input ends. -/
  | stop {e : Engine} (hmore : e.exhausted = false) :
      Hears file e [.ok none] none (e.finish.enqueue none)
  /-- A character is held back, and the source is asked again. -/
  | hold {e e' : Engine} {c : CodePoint} {answers : List (Except ReadError (Option CodePoint))}
      {error : Option ReadError} (hmore : e.exhausted = false) (hc : e.holds c = true)
      (hrest : Hears file (e.holdBack c) answers error e') :
      Hears file e (.ok (some c) :: answers) error e'
  /-- A character is let out as it was read. -/
  | pass {e : Engine} {c : CodePoint} (hmore : e.exhausted = false) (hc : e.Passes c) :
      Hears file e [.ok (some c)] none (((e.arrive c).observe c).enqueue (some (.content c)))
  /-- A character decides that its line fits. -/
  | level {e : Engine} {c : CodePoint} {stack : Stack} (hmore : e.exhausted = false)
      (hc : e.Decides c) (hstack : e.stack.advance? e.lead = some stack) :
      Hears file e [.ok (some c)] none
        (((e.arrive c).relevel stack).place (e.layout.marks e.depth stack.depth) c)
  /-- A character decides that its line is malformed. -/
  | misfit {e : Engine} {c : CodePoint} (hmore : e.exhausted = false) (hc : e.Decides c)
      (hstack : e.stack.advance? e.lead = none) :
      Hears file e [.ok (some c)] (some (.mismatch ((e.arrive c).mismatch file e.lead)))
        (e.arrive c)

variable {file : Option String} {e e' : Engine} {c : CodePoint}
  {answers : List (Except ReadError (Option CodePoint))} {error : Option ReadError}

/-- What a released character does, by what it is let out for. -/
theorem release_level (hc : e.Decides c) (file : Option String) :
    (e.arrive c).release file c =
      match e.stack.advance? e.lead with
      | none => .error (.mismatch ((e.arrive c).mismatch file e.lead))
      | some stack =>
        .ok (((e.arrive c).relevel stack).place (e.layout.marks e.depth stack.depth) c,
          (e.arrive c).levelNotices e.lead stack) := by
  rw [release_of_decides (hc.arrive c), settle_eq, stack_arrive, lead_arrive, layout_arrive]
  cases e.stack.advance? e.lead with
  | none => rfl
  | some stack =>
    have hdepth : (e.arrive c).depth = e.depth := congrArg Stack.depth (e.stack_arrive c)
    rw [hdepth]

/-- A character that is not held back is heard alone. -/
theorem hears_of_release_ok {told : List Notice} (hmore : e.exhausted = false)
    (hc : ¬ e.holds c = true) (h : (e.arrive c).release file c = .ok (e', told)) :
    Hears file e [.ok (some c)] none e' := by
  rcases passes_or_decides hc with hpass | hdecides
  · rw [release_of_passes ((e.passes_arrive c c).2 hpass)] at h
    obtain ⟨rfl, -⟩ : _ ∧ _ := by simpa using h
    exact .pass hmore hpass
  · rw [release_level hdecides] at h
    cases hstack : e.stack.advance? e.lead with
    | none => simp [hstack] at h
    | some stack =>
      obtain ⟨rfl, -⟩ : _ ∧ _ := by simpa [hstack] using h
      exact .level hmore hdecides hstack

theorem hears_of_release_error {x : ReadError} (hmore : e.exhausted = false)
    (hc : ¬ e.holds c = true) (h : (e.arrive c).release file c = .error x) :
    Hears file e [.ok (some c)] (some x) (e.arrive c) := by
  rcases passes_or_decides hc with hpass | hdecides
  · rw [release_of_passes ((e.passes_arrive c c).2 hpass)] at h
    simp at h
  · rw [release_level hdecides] at h
    cases hstack : e.stack.advance? e.lead with
    | some stack => simp [hstack] at h
    | none =>
      obtain rfl : _ = x := by simpa [hstack] using h
      exact .misfit hmore hdecides hstack

/-- Only the last of the answers is no character. -/
theorem Hears.exists_of_mem_dropLast (h : Hears file e answers error e') :
    ∀ answer ∈ answers.dropLast, ∃ c, answer = .ok (some c) := by
  induction h with
  | @hold e e' c answers error hmore hc hrest ih =>
    intro answer hanswer
    cases answers with
    | nil => simp at hanswer
    | cons first answers =>
      rw [List.dropLast_cons_of_ne_nil (List.cons_ne_nil _ _), List.mem_cons] at hanswer
      rcases hanswer with rfl | hanswer
      · exact ⟨c, rfl⟩
      · exact ih answer hanswer
  -- otherwise there is one answer at most
  | _ =>
    intro answer hanswer
    simp at hanswer

/-- Who hears of the end remembers it. -/
theorem Hears.exhausted_of_mem (h : Hears file e answers error e') (hnone : .ok none ∈ answers) :
    e'.exhausted = true := by
  induction h with
  | ended => simp at hnone
  | fail => simp at hnone
  | stop => rfl
  | hold hmore hc hrest ih => exact ih (by simpa using hnone)
  | pass => simp at hnone
  | level => simp at hnone
  | misfit => simp at hnone

/-- Who has not heard of the end does not know it. -/
theorem Hears.mem_of_exhausted (h : Hears file e answers error e') (hmore : e.exhausted = false)
    (hended : e'.exhausted = true) : .ok none ∈ answers := by
  have hfalse {e₀ : Engine} {c : CodePoint} (hmore : e₀.exhausted = false)
      (hended : (e₀.arrive c).exhausted = true) : False := by
    simp [hmore] at hended
  induction h with
  | ended hover => simp [hmore] at hover
  | fail => simp [hmore] at hended
  | stop => simp
  | hold hmore hc hrest ih =>
    exact List.mem_cons_of_mem _ (ih (by simpa using hmore) hended)
  | pass => exact (hfalse hmore hended).elim
  | level => exact (hfalse hmore hended).elim
  | misfit => exact (hfalse hmore hended).elim

/-- Who has met the end does not ask again. -/
theorem Hears.eq_of_exhausted (h : Hears file e answers error e') (hended : e.exhausted = true) :
    answers = [] ∧ error = none ∧ e' = e.enqueue none := by
  cases h with
  | ended => exact ⟨rfl, rfl, rfl⟩
  | fail hmore => simp [hended] at hmore
  | stop hmore => simp [hended] at hmore
  | hold hmore => simp [hended] at hmore
  | pass hmore => simp [hended] at hmore
  | level hmore => simp [hended] at hmore
  | misfit hmore => simp [hended] at hmore

theorem Hears.exhausted_of_exhausted (h : Hears file e answers error e')
    (hended : e.exhausted = true) : answers = [] ∧ e'.exhausted = true := by
  obtain ⟨hanswers, -, rfl⟩ := h.eq_of_exhausted hended
  exact ⟨hanswers, hended⟩

/-- The queue is not empty when there is something to hand out. -/
theorem Hears.queue_ne_nil (h : Hears file e answers none e') : e'.queue ≠ [] := by
  generalize herror : (none : Option ReadError) = error at h
  induction h with
  | ended => simp [enqueue]
  | fail => simp at herror
  | stop => simp [enqueue]
  | hold hmore hc hrest ih => exact ih herror
  | pass => simp [enqueue]
  | level => simp [place]
  | misfit => simp at herror

/-- Hearing changes no convention. -/
theorem Hears.layout_eq (h : Hears file e answers error e') : e'.layout = e.layout := by
  induction h with
  | ended => rfl
  | fail => rfl
  | stop => rfl
  | hold hmore hc hrest ih => rw [ih, layout_holdBack]
  | pass => exact layout_arrive _ _
  | level => exact layout_arrive _ _
  | misfit => exact layout_arrive _ _

/-- Whether a line starts is not decided by hearing, but by handing out. -/
theorem Hears.lineStart_eq (h : Hears file e answers error e') : e'.lineStart = e.lineStart := by
  induction h with
  | ended => rfl
  | fail => rfl
  | stop => rfl
  | hold hmore hc hrest ih => rw [ih, lineStart_holdBack]
  | pass => exact lineStart_arrive _ _
  | level => exact lineStart_arrive _ _
  | misfit => exact lineStart_arrive _ _

/-- What is queued between two requests: nothing, tokens up to a character of the text, or tokens up
to the end of the input. -/
inductive Pending (e : Engine) : Prop where
  /-- Nothing is queued. -/
  | empty (h : e.queue = [])
  /-- A character of the text is the last. -/
  | line (tokens : List Token) (c : CodePoint)
      (h : e.queue = (tokens ++ [Token.content c]).map some)
  /-- The end of the input is the last. -/
  | ending (tokens : List Token) (hended : e.exhausted = true)
      (h : e.queue = tokens.map some ++ [none])

theorem pending_of_lead {lead : List CodePoint} (h : e.queue = (lead.map Token.content).map some) :
    e.Pending := by
  rcases List.eq_nil_or_concat lead with rfl | ⟨run, c, rfl⟩
  · exact .empty h
  · exact .line (run.map .content) c (by simp [h])

theorem Hears.pending (h : Hears file e answers error e') (lead : List CodePoint)
    (hq : e.queue = (lead.map Token.content).map some) : e'.Pending := by
  induction h generalizing lead with
  | ended hended => exact .ending (lead.map .content) hended (by rw [enqueue, hq])
  | fail => exact pending_of_lead hq
  | stop => exact .ending (lead.map .content) rfl (by rw [enqueue, finish, hq])
  | @hold e e' c answers error hmore hc hrest ih =>
    apply ih (lead ++ [c])
    simp [hq]
  | @pass e c hmore hc => exact .line (lead.map .content) c (by simp [enqueue, observe, hq])
  | @level e c stack hmore hc hstack =>
    -- the marks, the whitespace if it is kept, and the character that has decided
    have hqueue : ((e.arrive c).relevel stack).queue = (lead.map Token.content).map some := by
      show (e.arrive c).queue = _
      rw [queue_arrive, hq]
    refine .line (e.layout.marks e.depth stack.depth ++
      if ((e.arrive c).relevel stack).layout.keepWhitespace then lead.map .content else []) c ?_
    rw [place, hqueue]
    cases ((e.arrive c).relevel stack).layout.keepWhitespace with
    | false => simp
    | true => simp
  | @misfit e c hmore hc hstack =>
    apply pending_of_lead
    rw [queue_arrive, hq]

end Engine

/-! ### A stream hears -/

namespace Stream

open Engine CharSource

variable {σ : Type} [CharSource σ] {s s' : Stream σ} {e : Engine} {c : CodePoint} {x : ReadError}
  {notices : List Notice} {error : Option ReadError} {k : Nat}

/-- The stream when it has taken some answers, and the analysis has made `e` of them. -/
def fed (s : Stream σ) (k : Nat) (e : Engine) : Stream σ :=
  { s with source := asked s.source k, engine := e }

omit [CharSource σ] in
/-- The reply of a stream that has heard what there is to hear. -/
def reply (s : Stream σ) : Option ReadError → Reply (Stream σ) (Option Token)
  | none => s.handOut
  | some x => ⟨.error x, s, []⟩

theorem pull_of_more (hmore : s.engine.exhausted = false) :
    ∃ told, s.pull =
      ⟨(CharSource.pull s.source).outcome,
        s.fed 1 (s.engine.receive (CharSource.pull s.source).outcome), told⟩ := by
  rw [pull, if_neg (by simp [hmore])]
  rcases h : CharSource.pull s.source with ⟨_ | _ | c, source, told⟩
  all_goals
    refine ⟨told, ?_⟩
    simp [fed, receive, asked, h]

/-- A stream answers that the input has ended because it knows, or it passes on what its source
says. -/
theorem of_pull {o : Except ReadError (Option CodePoint)} (h : s.pull = ⟨o, s', notices⟩) :
    (s.engine.exhausted = true ∧ o = .ok none ∧ s' = s) ∨
      (s.engine.exhausted = false ∧ (CharSource.pull s.source).outcome = o ∧
        s' = s.fed 1 (s.engine.receive o)) := by
  cases hended : s.engine.exhausted with
  | true =>
    rw [pull, if_pos hended, Reply.mk.injEq] at h
    exact Or.inl ⟨rfl, h.1.symm, h.2.1.symm⟩
  | false =>
    obtain ⟨told, hpull⟩ := pull_of_more hended
    rw [hpull, Reply.mk.injEq] at h
    obtain ⟨rfl, hnext, -⟩ := h
    exact Or.inr ⟨rfl, rfl, hnext.symm⟩

theorem of_pull_some (h : s.pull = ⟨.ok (some c), s', notices⟩) :
    s.engine.exhausted = false ∧ (CharSource.pull s.source).outcome = .ok (some c) ∧
      s' = s.fed 1 (s.engine.arrive c) := by
  rcases of_pull h with ⟨-, hnone, -⟩ | hasked
  · cases hnone
  · exact hasked

/-- When the source has nothing more the stream knows it. -/
theorem exhausted_of_pull (h : s.pull = ⟨.ok none, s', notices⟩) : s'.engine.exhausted = true := by
  rcases of_pull h with ⟨hended, -, rfl⟩ | ⟨-, -, rfl⟩
  · exact hended
  · rfl

theorem stack_of_pull {o : Except ReadError (Option CodePoint)} (h : s.pull = ⟨o, s', notices⟩) :
    s'.engine.stack = s.engine.stack := by
  rcases of_pull h with ⟨-, -, rfl⟩ | ⟨-, -, rfl⟩
  · rfl
  · rcases o with x | _ | c
    · rfl
    · rfl
    · exact s.engine.stack_arrive c

theorem holds_fed (s : Stream σ) (c d : CodePoint) :
    (s.fed 1 (s.engine.arrive c)).engine.holds d = s.engine.holds d := s.engine.holds_arrive c d

theorem hold_fed (s : Stream σ) (c : CodePoint) :
    (s.fed 1 (s.engine.arrive c)).hold c = s.fed 1 (s.engine.holdBack c) := rfl

theorem fed_fed (s : Stream σ) (e e' : Engine) (k : Nat) :
    (s.fed 1 e).fed k e' = s.fed (k + 1) e' := rfl

theorem answers_of_pull {o : Except ReadError (Option CodePoint)}
    (h : (CharSource.pull s.source).outcome = o) (e : Engine) (k : Nat) :
    answers s.source (k + 1) = o :: answers (s.fed 1 e).source k := by
  rw [answers_succ, h]
  rfl

/-- **Every request hears something.** -/
theorem request_hears (s : Stream σ) :
    ∃ k error e notices, Hears s.name s.engine (answers s.source k) error e ∧
      s.request = ((s.fed k e).reply error).after notices := by
  fun_induction request s with
  | case1 s x s' notices h =>
    rcases of_pull h with ⟨-, hnone, -⟩ | ⟨hmore, hpull, rfl⟩
    · cases hnone
    refine ⟨1, some x, s.engine, notices, ?_, by simp [reply, receive, Reply.after]⟩
    rw [answers_of_pull hpull s.engine 0]
    exact .fail hmore x
  | case2 s s' notices h =>
    -- the end has been met before, or it is met now
    rcases of_pull h with ⟨hended, -, rfl⟩ | ⟨hmore, hpull, rfl⟩
    · exact ⟨0, none, _, notices, .ended hended, rfl⟩
    · refine ⟨1, none, _, notices, ?_, rfl⟩
      rw [answers_of_pull hpull s.engine 0]
      exact .stop hmore
  | case3 s c s' notices h hc ih =>
    obtain ⟨hmore, hpull, rfl⟩ := of_pull_some h
    obtain ⟨k, error, e, told, hhears, hrequest⟩ := ih
    rw [hold_fed] at hhears hrequest
    rw [holds_fed] at hc
    -- the character is held back, so this request hears one answer more than the next
    refine ⟨k + 1, error, e, notices ++ told, ?_, ?_⟩
    · rw [answers_of_pull hpull (s.engine.holdBack c) k]
      exact .hold hmore hc hhears
    · rw [hold_fed, hrequest, fed_fed, Reply.after_after]
  | case4 s c s' notices h hc x hx =>
    obtain ⟨hmore, hpull, rfl⟩ := of_pull_some h
    rw [holds_fed] at hc
    refine ⟨1, some x, s.engine.arrive c, notices, ?_, by simp [reply, Reply.after]⟩
    rw [answers_of_pull hpull s.engine 0]
    exact hears_of_release_error hmore hc hx
  | case5 s c s' notices h hc e more he =>
    obtain ⟨hmore, hpull, rfl⟩ := of_pull_some h
    rw [holds_fed] at hc
    refine ⟨1, none, e, notices ++ more, ?_, rfl⟩
    rw [answers_of_pull hpull s.engine 0]
    exact hears_of_release_ok hmore hc he

/-- What the analysis makes of a character that is not held back is what a request does. -/
theorem request_of_answer {o : Except ReadError (Engine × List Notice)}
    (hmore : s.engine.exhausted = false) (hpull : (CharSource.pull s.source).outcome = .ok (some c))
    (hc : ¬ s.engine.holds c = true) (h : (s.engine.arrive c).release s.name c = o) :
    ∃ notices, s.request =
      match o with
      | .error x => ⟨.error x, s.fed 1 (s.engine.arrive c), notices⟩
      | .ok (e, _) => (s.fed 1 e).handOut.after notices := by
  obtain ⟨told, hs⟩ := pull_of_more hmore
  rw [hpull] at hs
  rw [← s.holds_fed c] at hc
  have hrelease : (s.fed 1 (s.engine.arrive c)).engine.release
      (s.fed 1 (s.engine.arrive c)).name c = o := h
  rw [request_eq, hs]
  simp only [receive, answer, if_neg hc, hrelease]
  rcases o with x | ⟨e, more⟩
  · exact ⟨told, by simp [Reply.after]⟩
  · refine ⟨told ++ more, ?_⟩
    simp only [Reply.after_after]
    rfl

theorem request_of_hears {file : Option String} {e₀ : Engine}
    {as : List (Except ReadError (Option CodePoint))} (h : Hears file e₀ as error e)
    (hname : s.name = file) (hengine : s.engine = e₀) (hanswers : answers s.source k = as) :
    ∃ notices, s.request = ((s.fed k e).reply error).after notices := by
  -- along the answers: each one that is held back leads to a request with one answer less
  induction h generalizing s k with
  | ended hended =>
    subst hengine
    -- no answer is asked for behind the end
    obtain rfl : k = 0 := by simpa using congrArg List.length hanswers
    refine ⟨[], ?_⟩
    rw [request_eq, pull, if_pos hended]
    rfl
  | fail hmore x =>
    subst hengine
    obtain ⟨rfl, houtcome⟩ := of_answers_eq_singleton hanswers
    obtain ⟨told, hpull⟩ := pull_of_more hmore
    refine ⟨told, ?_⟩
    rw [request_eq, hpull, houtcome]
    simp [reply, receive, Reply.after]
  | stop hmore =>
    subst hengine
    obtain ⟨rfl, houtcome⟩ := of_answers_eq_singleton hanswers
    obtain ⟨told, hpull⟩ := pull_of_more hmore
    refine ⟨told, ?_⟩
    rw [request_eq, hpull, houtcome]
    rfl
  | @hold e₀ e' c as error hmore hc hrest ih =>
    subst hengine
    obtain ⟨k, rfl, houtcome, hanswers⟩ := of_answers_eq_cons hanswers
    obtain ⟨told, hpull⟩ := pull_of_more hmore
    rw [houtcome] at hpull
    -- the request goes on as one that starts with this character in the queue
    obtain ⟨more, hrequest⟩ := ih (s := s.fed 1 (s.engine.holdBack c)) (k := k) hname rfl hanswers
    rw [← s.holds_fed c] at hc
    refine ⟨told ++ more, ?_⟩
    rw [request_eq, hpull]
    simp only [receive, answer, if_pos hc, hold_fed, hrequest, Reply.after_after, fed_fed]
  | @pass e₀ c hmore hc =>
    subst hengine
    obtain ⟨rfl, houtcome⟩ := of_answers_eq_singleton hanswers
    -- the character releases what is queued, or it finds its line malformed
    obtain ⟨told, hrequest⟩ := request_of_answer hmore houtcome hc.not_holds
      (release_of_passes ((s.engine.passes_arrive c c).2 hc) s.name)
    exact ⟨told, hrequest⟩
  | @level e₀ c stack hmore hc hstack =>
    subst hengine
    obtain ⟨rfl, houtcome⟩ := of_answers_eq_singleton hanswers
    obtain ⟨told, hrequest⟩ := request_of_answer hmore houtcome hc.not_holds
      (release_level hc s.name)
    rw [hstack] at hrequest
    exact ⟨told, hrequest⟩
  | @misfit e₀ c hmore hc hstack =>
    subst hengine hname
    obtain ⟨rfl, houtcome⟩ := of_answers_eq_singleton hanswers
    obtain ⟨told, hrequest⟩ := request_of_answer hmore houtcome hc.not_holds
      (release_level hc s.name)
    rw [hstack] at hrequest
    exact ⟨told, by simp [hrequest, reply, Reply.after]⟩

/-- **A request does what the analysis makes of the answers.** -/
theorem next_of_hears (hopen : s.closed = false) (hq : s.engine.queue = [])
    (h : Hears s.name s.engine (answers s.source k) error e) :
    ∃ notices, s.next = ((s.fed k e).reply error).after notices := by
  rw [next_eq_request hopen hq]
  exact request_of_hears h rfl rfl rfl

/-- **A request hands out what is queued, or it hears something.** -/
theorem next_hears (hopen : s.closed = false) :
    (s.engine.queue ≠ [] ∧ s.next = s.handOut) ∨
      (s.engine.queue = [] ∧ ∃ k error e notices,
        Hears s.name s.engine (answers s.source k) error e ∧
          s.next = ((s.fed k e).reply error).after notices) := by
  by_cases hq : s.engine.queue = []
  · refine Or.inr ⟨hq, ?_⟩
    rw [next_eq_request hopen hq]
    exact s.request_hears
  · exact Or.inl ⟨hq, next_of_queue_ne_nil hopen hq⟩

end Stream

end Offside
