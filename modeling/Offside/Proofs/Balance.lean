import Offside.Proofs.Operation

/-!
# The balance of marks

A mark is queued when a level is opened or closed, counted at once, and delivered later.  So at
all times the marks of opening blocks that were delivered, less those of closing blocks, are the
open levels and the marks of closing blocks that are still queued.  This holds whatever is done to
a stream and whatever fails in between: an error comes while only whitespace is held back, before
anything is decided.

The marks are told from the text by their role here.

## Main definitions

* `Token.balance` — the marks of opening blocks less those of closing blocks.
* `Engine.Account` — the balance between two requests.

## Main results

* `Engine.Holding.release` — what a line opens and closes is accounted for.
* `Stream.account_next` — so is what a request hands out.
* `Stream.invariant_account` — the balance is kept by whatever is done to a stream.
-/

namespace Offside

/-! ### Counting marks -/

namespace Token

/-- The marks of opening blocks less those of closing blocks. -/
def balance (tokens : List Token) : Int :=
  tokens.countP (·.role = .indent) - tokens.countP (·.role = .dedent)

@[simp] theorem balance_nil : balance [] = 0 := rfl

@[simp] theorem balance_append (first second : List Token) :
    balance (first ++ second) = balance first + balance second := by
  simp only [balance, List.countP_append]
  omega

theorem balance_cons (t : Token) (rest : List Token) :
    balance (t :: rest) = balance [t] + balance rest := by
  rw [← List.singleton_append, balance_append]

theorem balance_of_content {tokens : List Token} (h : ∀ t ∈ tokens, t.role = .content) :
    balance tokens = 0 := by
  have hindent : tokens.countP (·.role = .indent) = 0 :=
    List.countP_eq_zero.2 fun t ht => by simp [h t ht]
  have hdedent : tokens.countP (·.role = .dedent) = 0 :=
    List.countP_eq_zero.2 fun t ht => by simp [h t ht]
  rw [balance, hindent, hdedent]
  rfl

theorem balance_of_dedent {tokens : List Token} (h : ∀ t ∈ tokens, t.role = .dedent) :
    balance tokens = -tokens.length := by
  have hindent : tokens.countP (·.role = .indent) = 0 :=
    List.countP_eq_zero.2 fun t ht => by simp [h t ht]
  have hdedent : tokens.countP (·.role = .dedent) = tokens.length :=
    List.countP_eq_length.2 fun t ht => by simp [h t ht]
  rw [balance, hindent, hdedent]
  omega

end Token

/-- The marks of a line are the levels that it opens less those that it closes. -/
theorem Layout.balance_marks (l : Layout) {before after : Nat} (h : after ≤ before + 1) :
    Token.balance (l.marks before after) = after - before := by
  rw [marks]
  split
  · next hlt =>
    have hmark : Token.balance [⟨.indent, l.indentMark⟩] = 1 := rfl
    rw [hmark]
    omega
  · next hle =>
    rw [Token.balance_of_dedent (by simp), List.length_replicate]
    omega

/-- A line opens one level at most. -/
theorem Stack.depth_advance?_le {s s' : Stack} {run : List CodePoint}
    (h : s.advance? run = some s') :
    s'.depth ≤ s.depth + 1 := by
  rcases advance?_cases h with ⟨m, -, -, rfl⟩ | ⟨ext, hext, -, rfl⟩
  · rw [depth_close]
    omega
  · rw [depth_push]

namespace Engine

/-! ### The account -/

/-- Every mark that was queued is counted, and has been delivered or is queued still. -/
structure Balanced (seen : List Token) (e : Engine) : Prop where
  counted : e.indents = e.dedents + e.depth
  balance_eq : Token.balance seen + Token.balance e.due = e.depth

/-- What may stand in the queue: marks, then characters, and then the end of the input. -/
structure Backlog (queue : List (Option Token)) (marks chars : List Token) : Prop where
  queue_eq : ∃ ending, (ending = [] ∨ ending = [none]) ∧ queue = (marks ++ chars).map some ++ ending
  content : ∀ t ∈ chars, t.role = .content

/-- While a request is being answered only characters are queued. -/
structure Holding (seen : List Token) (e : Engine) : Prop extends Balanced seen e where
  queue_eq : ∃ chars : List Token, e.queue = chars.map some ∧ ∀ t ∈ chars, t.role = .content

/-- When a request has been answered, the mark of an opening block or those of closing blocks may
stand first in the queue. -/
structure Stocked (seen : List Token) (e : Engine) : Prop extends Balanced seen e where
  backlog : ∃ marks chars, Backlog e.queue marks chars ∧
    ((∃ t, marks = [t] ∧ t.role = .indent) ∨ ∀ t ∈ marks, t.role = .dedent)

/-- Between two requests only marks of closing blocks are queued; if there are any, one of them was
delivered last. -/
structure Account (seen : List Token) (e : Engine) : Prop extends Balanced seen e where
  backlog : ∃ marks chars, Backlog e.queue marks chars ∧ (∀ t ∈ marks, t.role = .dedent) ∧
    (marks ≠ [] → ∃ t, seen.getLast? = some t ∧ t.role = .dedent)

/-- Nothing is open and nothing is queued. -/
structure Ended (e : Engine) : Prop where
  depth_eq : e.depth = 0
  queue_eq : e.queue = []

theorem account_fresh (l : Layout) (rules : List Rule) : Account [] (fresh l rules) where
  counted := rfl
  balance_eq := rfl
  backlog := ⟨[], [], ⟨⟨[], Or.inl rfl, rfl⟩, by simp⟩, by simp, by simp⟩

variable {seen : List Token} {e e' : Engine} {c : CodePoint}

theorem due_of_queue_eq_map {tokens : List Token} (h : e.queue = tokens.map some) :
    e.due = tokens := by
  rw [due, h, List.reduceOption, List.filterMap_map]
  simp

theorem Account.stocked (h : Account seen e) : Stocked seen e where
  __ := h.toBalanced
  backlog := by
    obtain ⟨marks, chars, hback, hmarks, -⟩ := h.backlog
    exact ⟨marks, chars, hback, Or.inr hmarks⟩

theorem Account.holding (h : Account seen e) (hq : e.queue = []) : Holding seen e where
  __ := h.toBalanced
  queue_eq := ⟨[], hq, by simp⟩

theorem Holding.account (h : Holding seen e) : Account seen e where
  __ := h.toBalanced
  backlog := by
    obtain ⟨chars, hq, hchars⟩ := h.queue_eq
    exact ⟨[], chars, ⟨⟨[], Or.inl rfl, by simpa using hq⟩, hchars⟩, by simp, by simp⟩

/-! ### While a request is being answered -/

/-- The balance depends on the levels, the counts and what is queued. -/
theorem Holding.congr (h : Holding seen e) (hstack : e'.stack = e.stack)
    (hindents : e'.indents = e.indents) (hdedents : e'.dedents = e.dedents)
    (hqueue : e'.queue = e.queue) : Holding seen e' where
  counted := by rw [hindents, hdedents, depth, hstack, h.counted, depth]
  balance_eq := by rw [depth, hstack, due, hqueue]; exact h.balance_eq
  queue_eq := by rw [hqueue]; exact h.queue_eq

theorem Holding.arrive (h : Holding seen e) (c : CodePoint) : Holding seen (e.arrive c) :=
  h.congr (e.stack_arrive c) (e.indents_arrive c) (e.dedents_arrive c) (e.queue_arrive c)

theorem Holding.finish (h : Holding seen e) : Holding seen e.finish := h.congr rfl rfl rfl rfl

theorem Holding.hold (h : Holding seen e) (c : CodePoint) :
    Holding seen (e.enqueue (some (.content c))) where
  counted := h.counted
  balance_eq := by
    have hcontent : Token.balance [Token.content c] = 0 := rfl
    rw [due_enqueue_some, Token.balance_append, hcontent, Int.add_zero]
    exact h.balance_eq
  queue_eq := by
    obtain ⟨chars, hq, hchars⟩ := h.queue_eq
    refine ⟨chars ++ [.content c], by simp [enqueue, hq], fun t ht => ?_⟩
    rcases List.mem_append.1 ht with ht | ht
    · exact hchars t ht
    · rw [List.mem_singleton.1 ht, Token.role_content]

/-- The end of the input is queued behind what was held back. -/
theorem Holding.stop (h : Holding seen e) : Stocked seen (e.enqueue none) where
  counted := h.counted
  balance_eq := by
    have hdue : (e.enqueue none).due = e.due := by
      rw [due, enqueue, List.reduceOption_append]
      simp [due, List.reduceOption]
    rw [hdue]
    exact h.balance_eq
  backlog := by
    obtain ⟨chars, hq, hchars⟩ := h.queue_eq
    exact ⟨[], chars, ⟨⟨[none], Or.inr rfl, by simp [enqueue, hq]⟩, hchars⟩, Or.inr (by simp)⟩

/-- The marks of a line make up for the change of depth. -/
theorem Holding.place (h : Holding seen e) {run : List CodePoint} {stack : Stack}
    (hstack : e.stack.advance? run = some stack) (c : CodePoint) :
    Stocked seen ((e.relevel stack).place (e.layout.marks e.depth stack.depth) c) := by
  obtain ⟨chars, hq, hchars⟩ := h.queue_eq
  have hle : stack.depth ≤ e.depth + 1 := Stack.depth_advance?_le hstack
  -- what follows the marks is text, whether the whitespace is kept or not
  have hkept : ∀ t ∈ (if e.layout.keepWhitespace then chars else []) ++ [Token.content c],
      t.role = .content := by
    intro t ht
    rcases List.mem_append.1 ht with ht | ht
    · split at ht
      · exact hchars t ht
      · simp at ht
    · rw [List.mem_singleton.1 ht, Token.role_content]
  have hqueue : ((e.relevel stack).place (e.layout.marks e.depth stack.depth) c).queue =
      (e.layout.marks e.depth stack.depth ++
        ((if e.layout.keepWhitespace then chars else []) ++ [Token.content c])).map some := by
    have hq' : (e.relevel stack).queue = chars.map some := hq
    rw [Engine.place, hq']
    cases hkeep : e.layout.keepWhitespace <;> simp [relevel, hkeep]
  -- what was held back is text, so it counts neither before nor after
  have hdue := due_of_queue_eq_map hq
  refine ⟨⟨?_, ?_⟩, e.layout.marks e.depth stack.depth, _, ⟨⟨[], Or.inl rfl, ?_⟩, hkept⟩, ?_⟩
  · have hcounted := h.counted
    simp only [Engine.place, relevel, depth] at hcounted ⊢
    omega
  · have hbalance := h.balance_eq
    rw [hdue, Token.balance_of_content hchars] at hbalance
    rw [due_of_queue_eq_map hqueue, Token.balance_append, Token.balance_of_content hkept,
      Layout.balance_marks _ hle]
    simp only [Engine.place, relevel, depth] at hbalance ⊢
    omega
  · rw [hqueue, List.append_nil]
  · rw [Layout.marks]
    split
    · exact Or.inl ⟨_, rfl, rfl⟩
    · exact Or.inr (by simp)

/-- **What is let out is accounted for.** -/
theorem Holding.release {file : Option String} {notices : List Notice} (h : Holding seen e)
    (hc : ¬ e.holds c = true) (he : e.release file c = .ok (e', notices)) : Stocked seen e' := by
  rcases passes_or_decides hc with hpass | hdec
  · rw [release_of_passes hpass] at he
    obtain ⟨rfl, -⟩ : _ ∧ _ := by simpa using he
    have hobserve : Holding seen (e.observe c) := h.congr rfl rfl rfl rfl
    exact (hobserve.hold c).account.stocked
  · rw [release_of_decides hdec, settle_eq] at he
    cases hstack : e.stack.advance? e.lead with
    | none => simp [hstack] at he
    | some stack =>
      obtain ⟨rfl, -⟩ : _ ∧ _ := by simpa [hstack] using he
      exact h.place hstack c

end Engine

namespace Stream

open Engine

section Account

variable {σ : Type} {s t : Stream σ} {seen : List Token}
  {outcome : Except ReadError (Option Token)}

/-! ### From request to request -/

/-- A token that is handed out is accounted for. -/
theorem account_handed {x : Token} {rest : List (Option Token)} (h : Stocked seen s.engine)
    (hqueue : s.engine.queue = some x :: rest) :
    Account (seen ++ [x]) (s.handed x rest).engine := by
  obtain ⟨marks, chars, ⟨⟨ending, hending, hq⟩, hchars⟩, hmarks⟩ := h.backlog
  have hbalance := h.balance_eq
  have hdue : s.engine.due = x :: rest.reduceOption := by
    rw [due, hqueue, List.reduceOption_cons_of_some]
  rw [hdue, Token.balance_cons, ← Int.add_assoc, ← Token.balance_append] at hbalance
  refine ⟨⟨h.counted, hbalance⟩, ?_⟩
  rw [hqueue] at hq
  cases marks with
  | nil =>
    -- the token is text, and only text is left behind it
    cases chars with
    | nil => rcases hending with rfl | rfl <;> simp at hq
    | cons c chars =>
      obtain ⟨-, hrest⟩ := List.cons.inj hq
      have hchars' : ∀ y ∈ chars, y.role = .content := fun y hy =>
        hchars y (List.mem_cons_of_mem _ hy)
      exact ⟨[], chars, ⟨⟨ending, hending, hrest⟩, hchars'⟩, by simp, by simp⟩
  | cons m marks =>
    -- the token is a mark; if it opens a block, no other mark is behind it
    obtain ⟨hm, hrest⟩ := List.cons.inj hq
    obtain rfl : x = m := by simpa using hm
    refine ⟨marks, chars, ⟨⟨ending, hending, hrest⟩, hchars⟩, ?_, fun hne => ?_⟩
    · rcases hmarks with ⟨y, hy, -⟩ | hall
      · simp [(List.cons.inj hy).2]
      · exact fun y hy => hall y (List.mem_cons_of_mem _ hy)
    · rcases hmarks with ⟨y, hy, -⟩ | hall
      · exact absurd (List.cons.inj hy).2 hne
      · exact ⟨x, by simp, hall x List.mem_cons_self⟩

/-- Nothing stands behind the end of the input. -/
theorem queue_eq_of_none {rest : List (Option Token)} (h : Stocked seen s.engine)
    (hqueue : s.engine.queue = none :: rest) : s.engine.queue = [none] := by
  obtain ⟨marks, chars, ⟨⟨ending, hending, hq⟩, -⟩, -⟩ := h.backlog
  rw [hqueue] at hq ⊢
  cases htokens : marks ++ chars with
  | cons x tokens => simp [htokens] at hq
  | nil =>
    rcases hending with rfl | rfl
    · simp [htokens] at hq
    · simpa [htokens] using hq

/-- The marks at the end of the input are accounted for: the levels that they stand for are closed
at once. -/
theorem account_flushed {n : Nat} (h : Stocked seen s.engine) (hq : s.engine.queue = [none])
    (hdepth : s.engine.depth = n + 1) :
    Account (seen ++ [s.engine.dedentToken]) (s.flushed n).engine := by
  have hbalance := h.balance_eq
  have hcounted := h.counted
  have hdue : s.engine.due = [] := by rw [due, hq]; rfl
  have hqueue : (s.flushed n).engine.queue =
      ((List.replicate n s.engine.dedentToken).map some : List (Option Token)) ++ [none] := by
    simp [flushed]
  have hdue' : (s.flushed n).engine.due = List.replicate n s.engine.dedentToken := by
    rw [due, hqueue, List.reduceOption_append]
    simp [List.reduceOption]
  have hmark : Token.balance [s.engine.dedentToken] = -1 := rfl
  have hmarks : Token.balance (List.replicate n s.engine.dedentToken) = -n := by
    rw [Token.balance_of_dedent (by simp [dedentToken]), List.length_replicate]
  refine ⟨⟨?_, ?_⟩, List.replicate n s.engine.dedentToken, [], ⟨⟨[none], Or.inr rfl, ?_⟩, by simp⟩,
    by simp [dedentToken], fun _ => ⟨s.engine.dedentToken, by simp, rfl⟩⟩
  · simp only [flushed, Engine.depth, Stack.depth_empty] at hcounted hdepth ⊢
    omega
  · rw [hdue, hdepth] at hbalance
    rw [hdue', Token.balance_append, hmark, hmarks]
    simp only [flushed, Engine.depth, Stack.depth_empty, Token.balance_nil] at hbalance ⊢
    omega
  · rw [hqueue, List.append_nil]

/-- **What is handed out is accounted for**, and at the end nothing is open or queued. -/
theorem account_handOut (h : Stocked seen s.engine) (hne : s.engine.queue ≠ []) :
    Account (seen ++ tokensOf s.handOut.outcome) s.handOut.next.engine ∧
      (s.handOut.outcome = .ok none → s.handOut.next.engine.Ended) := by
  cases hqueue : s.engine.queue with
  | nil => exact absurd hqueue hne
  | cons entry rest =>
    cases entry with
    | some x =>
      rw [handOut_of_queue_eq_cons hqueue]
      exact ⟨account_handed h hqueue, by simp⟩
    | none =>
      have hq := queue_eq_of_none h hqueue
      cases hdepth : s.engine.depth with
      | zero =>
        have hbalance := h.balance_eq
        have hdue : s.engine.due = [] := by rw [due, hq]; rfl
        rw [hdue] at hbalance
        rw [handOut_of_depth_eq_zero hq hdepth, tokensOf_none, List.append_nil]
        refine ⟨⟨⟨h.counted, hbalance⟩, [], [], ⟨⟨[], Or.inl rfl, rfl⟩, by simp⟩, by simp, by simp⟩,
          fun _ => ⟨hdepth, rfl⟩⟩
      | succ n =>
        rw [handOut_of_depth_eq_succ hq hdepth]
        exact ⟨account_flushed h hq hdepth, by simp⟩

variable [CharSource σ]

theorem Request.account (hreq : Request s outcome t) (h : Holding seen s.engine) :
    Account (seen ++ tokensOf outcome) t.engine ∧ (outcome = .ok none → t.engine.Ended) := by
  induction hreq with
  | fail hpull =>
    rw [tokensOf_error, List.append_nil, engine_of_pull_error hpull]
    exact ⟨h.account, by simp⟩
  | stop hpull =>
    refine account_handOut ?_ (by simp [Engine.enqueue])
    rcases engine_of_pull_none hpull with heq | heq
    · rw [heq]
      exact h.stop
    · rw [heq]
      exact h.finish.stop
  | hold hpull hc hrest ih =>
    refine ih ?_
    rw [Stream.hold, (engine_of_pull hpull).1]
    exact (h.arrive _).hold _
  | @release s s' c notices told e hpull hc he =>
    rw [(engine_of_pull hpull).1] at hc he
    have hholding := h.arrive c
    obtain ⟨chars, hq, -⟩ := hholding.queue_eq
    obtain ⟨out, hout⟩ := queue_of_release (by rw [due_of_queue_eq_map hq, hq]) he
    exact account_handOut (hholding.release hc he) (by simp [hout])
  | misfit hpull hc hx =>
    -- nothing was decided yet, and what was held back stays queued
    rw [tokensOf_error, List.append_nil, (engine_of_pull hpull).1]
    exact ⟨(h.arrive _).account, by simp⟩

theorem account_next (h : Account seen s.engine) :
    Account (seen ++ tokensOf s.next.outcome) s.next.next.engine ∧
      (s.next.outcome = .ok none → s.next.next.engine.Ended) := by
  rcases s.next_cases with hnext | ⟨hq, hnext⟩ | ⟨hq, hreq⟩
  · rw [hnext, tokensOf_error, List.append_nil]
    exact ⟨h, by simp⟩
  · rw [hnext]
    exact account_handOut h.stocked hq
  · exact hreq.account (h.holding hq)

end Account

/-! ### At all times -/

variable {σ : Type} [CharSource σ]

/-- **The balance is kept by whatever is done to a stream.** -/
theorem invariant_account :
    Invariant (fun _ => True) fun seen (s : Stream σ) => Account seen s.engine where
  next h := (account_next h).1
  close _ h := h
  adopt {_ s convention} _ h := by
    obtain ⟨l, t, heq⟩ := s.engine.alike_adopt convention
    rw [heq]
    exact ⟨⟨h.counted, h.balance_eq⟩, h.backlog⟩

end Stream

end Offside
