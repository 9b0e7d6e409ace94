import Offside.Proofs.Request
import Offside.Source.Text
import Offside.Stream.Read

/-!
# Feeding a text

Over a text in memory the requests to a stream run into one another: reading to the end feeds the
analysis the characters of the text in order, and delivers what each of them lets out.  The queue
of a stream then plays no part any more, but for the whitespace that is held back.

## Main definitions

* `Engine.Leading` — an analysis between two characters.
* `Engine.feed`, `Engine.feedAll` — what a character and what a text let out.
* `Engine.Feeds` — the four things that a character can do.
* `Stream.ofText` — a stream over a text.

## Main results

* `Engine.feeds_feed` — feeding does one of the four.
* `Engine.feedAll_induction` — what each character keeps, a text keeps.
* `Stream.drain_of_feedAll_ok`, `Stream.drain_of_feed_error` — reading to the end is feeding.
-/

namespace Offside

namespace Engine

/-! ### Between two characters -/

/-- Between two characters the queue is the whitespace that is held back, and whitespace is held
back at the start of a line only. -/
structure Leading (e : Engine) : Prop where
  queue_eq : e.queue = e.lead.map fun c => some (.content c)
  queue_nil : e.lineStart = false → e.queue = []
  more : e.exhausted = false

theorem leading_fresh (l : Layout) (rules : List Rule) : (fresh l rules).Leading where
  queue_eq := rfl
  queue_nil _ := rfl
  more := rfl

theorem Leading.due_eq {e : Engine} (he : e.Leading) : e.due = e.lead.map Token.content := by
  have hqueue : e.queue = (e.lead.map Token.content).map some := by
    rw [List.map_map]
    exact he.queue_eq
  rw [due, hqueue, List.reduceOption, List.filterMap_map]
  simp

theorem Leading.queue_eq_due {e : Engine} (he : e.Leading) : e.queue = e.due.map some := by
  rw [he.due_eq, List.map_map]
  exact he.queue_eq

theorem lead_of_queue_nil {e : Engine} (hq : e.queue = []) : e.lead = [] :=
  lead_of_queue_eq hq

theorem due_of_queue_nil {e : Engine} (hq : e.queue = []) : e.due = [] := by
  rw [due, hq, List.reduceOption_nil]

/-! ### Feeding -/

/-- The analysis when the queue has been delivered and the last token was the character `c`. -/
def delivered (e : Engine) (c : CodePoint) : Engine :=
  { e with queue := [], lineStart := c = e.layout.newline }

@[simp] theorem delivered_enqueue (e : Engine) (entry : Option Token) (c : CodePoint) :
    (e.enqueue entry).delivered c = e.delivered c := rfl

@[simp] theorem delivered_place (e : Engine) (marks : List Token) (c : CodePoint) :
    (e.place marks c).delivered c = e.delivered c := rfl

/-- What a character lets out, and the analysis after it. -/
def feed (e : Engine) (file : Option String) (c : CodePoint) :
    Except ReadError (List Token × Engine × List Notice) :=
  let e := e.arrive c
  if e.holds c then .ok ([], e.enqueue (some (.content c)), [])
  else match e.release file c with
    | .error x => .error x
    | .ok (e', notices) => .ok (e'.due, e'.delivered c, notices)

/-- What a text lets out, and the analysis after it or the error that ends it. -/
structure Fed where
  /-- The tokens let out. -/
  tokens : List Token
  /-- The analysis after the text, or the error. -/
  outcome : Except ReadError Engine
  /-- What was reported. -/
  notices : List Notice

/-- Feeds the characters of a text one after the other, up to the first error. -/
def feedAll (e : Engine) (file : Option String) : List CodePoint → Fed
  | [] => ⟨[], .ok e, []⟩
  | c :: rest => match e.feed file c with
    | .error x => ⟨[], .error x, []⟩
    | .ok (tokens, e', notices) =>
      let after := e'.feedAll file rest
      ⟨tokens ++ after.tokens, after.outcome, notices ++ after.notices⟩

/-- The analysis after a character that is let out as it was read. -/
def pass (e : Engine) (c : CodePoint) : Engine := ((e.arrive c).observe c).delivered c

/-- The analysis after the character that decides about the levels. -/
def level (e : Engine) (c : CodePoint) (stack : Stack) : Engine :=
  ((e.arrive c).relevel stack).delivered c

/-- The four things that a character can do. -/
inductive Feeds (e : Engine) (file : Option String) (c : CodePoint) :
    Except ReadError (List Token × Engine × List Notice) → Prop where
  /-- It is held back. -/
  | hold (hesc : e.escapes c = false) (hline : e.lineStart = true)
      (hc : c ∈ e.layout.whitespace) :
      Feeds e file c (.ok ([], (e.arrive c).enqueue (some (.content c)), []))
  /-- It is let out after what was held back. -/
  | pass (h : e.Passes c) :
      Feeds e file c (.ok (e.due ++ [.content c], e.pass c, e.crossing c))
  /-- It decides that the line fits. -/
  | level (h : e.Decides c) (stack : Stack) (hstack : e.stack.advance? e.lead = some stack) :
      Feeds e file c
        (.ok (e.layout.marks e.depth stack.depth ++
            (if e.layout.keepWhitespace then e.due else []) ++ [.content c],
          e.level c stack, (e.arrive c).levelNotices e.lead stack))
  /-- It decides that the line is malformed. -/
  | misfit (h : e.Decides c) (hstack : e.stack.advance? e.lead = none) :
      Feeds e file c (.error (.mismatch ((e.arrive c).mismatch file e.lead)))

theorem Passes.not_holds {e : Engine} {c : CodePoint} (h : e.Passes c) : ¬ e.holds c = true := by
  rw [holds_iff]
  rintro ⟨hesc, hline, hc⟩
  rcases h with hesc' | hline' | ⟨-, hc'⟩
  · rw [hesc] at hesc'
    exact Bool.noConfusion hesc'
  · rw [hline] at hline'
    exact Bool.noConfusion hline'
  · exact hc' hc

theorem Decides.not_holds {e : Engine} {c : CodePoint} (h : e.Decides c) : ¬ e.holds c = true := by
  rw [holds_iff]
  rintro ⟨-, -, hc⟩
  exact h.notMem hc

theorem feed_of_holds {e : Engine} {c : CodePoint} (h : e.holds c = true) (file : Option String) :
    e.feed file c = .ok ([], (e.arrive c).enqueue (some (.content c)), []) := by
  have h' : (e.arrive c).holds c = true := by rwa [holds_arrive]
  exact if_pos h'

theorem feed_of_passes {e : Engine} {c : CodePoint} (h : e.Passes c) (file : Option String) :
    e.feed file c = .ok (e.due ++ [.content c], e.pass c, e.crossing c) := by
  have hholds : ¬ (e.arrive c).holds c = true := by
    rw [holds_arrive]
    exact h.not_holds
  have hpass : (e.arrive c).Passes c := (e.passes_arrive c c).2 h
  have hdue : ((e.arrive c).observe c).due = e.due := e.due_arrive c
  have hcross : (e.arrive c).crossing c = e.crossing c := by simp [crossing]
  simp only [feed, if_neg hholds, release_of_passes hpass, due_enqueue_some, hdue, hcross,
    delivered_enqueue]
  rfl

theorem feed_of_decides {e : Engine} {c : CodePoint} (h : e.Decides c) (file : Option String) :
    e.feed file c =
      match e.stack.advance? e.lead with
      | none => .error (.mismatch ((e.arrive c).mismatch file e.lead))
      | some stack =>
        .ok (e.layout.marks e.depth stack.depth ++
            (if e.layout.keepWhitespace then e.due else []) ++ [.content c],
          e.level c stack, (e.arrive c).levelNotices e.lead stack) := by
  have hholds : ¬ (e.arrive c).holds c = true := by
    rw [holds_arrive]
    exact h.not_holds
  have hdec : (e.arrive c).Decides c := h.arrive c
  have hdepth : (e.arrive c).depth = e.depth := by simp [depth]
  simp only [feed, if_neg hholds, release_of_decides hdec, settle_eq, stack_arrive, lead_arrive]
  cases e.stack.advance? e.lead with
  | none => rfl
  | some stack =>
    have hdue : ((e.arrive c).relevel stack).due = e.due := e.due_arrive c
    have hlayout : ((e.arrive c).relevel stack).layout = e.layout := e.layout_arrive c
    simp only [due_place, hdue, hlayout, hdepth, layout_arrive, delivered_place]
    rfl

/-- **A character does one of four things.** -/
theorem feeds_feed (e : Engine) (file : Option String) (c : CodePoint) :
    Feeds e file c (e.feed file c) := by
  by_cases hholds : e.holds c = true
  · obtain ⟨hesc, hline, hc⟩ := holds_iff.1 hholds
    rw [feed_of_holds hholds]
    exact .hold hesc hline hc
  · rcases passes_or_decides hholds with hpass | hdec
    · rw [feed_of_passes hpass]
      exact .pass hpass
    · rw [feed_of_decides hdec]
      cases hstack : e.stack.advance? e.lead with
      | none => exact .misfit hdec hstack
      | some stack => exact .level hdec stack hstack

theorem lead_enqueue (e : Engine) (c : CodePoint) :
    ((e.arrive c).enqueue (some (.content c))).lead = e.lead ++ [c] := by
  rw [lead, due_enqueue_some, due_arrive]
  simp [Token.text, lead]

/-- The queue keeps its shape from character to character. -/
theorem Leading.feed {e e' : Engine} {file : Option String} {c : CodePoint} {tokens : List Token}
    {notices : List Notice} (he : e.Leading) (h : e.feed file c = .ok (tokens, e', notices)) :
    e'.Leading := by
  have hfeeds := feeds_feed e file c
  rw [h] at hfeeds
  cases hfeeds with
  | hold hesc hline hc =>
    constructor
    · rw [lead_enqueue]
      simp [enqueue, he.queue_eq]
    · intro hfalse
      simp [enqueue, hline] at hfalse
    · simpa [enqueue] using he.more
  | pass _ => exact ⟨rfl, fun _ => rfl, by simpa [Engine.pass, delivered, observe] using he.more⟩
  | level _ stack _ => exact ⟨rfl, fun _ => rfl, by simpa [level, delivered, relevel] using he.more⟩

/-! ### Feeding a text -/

@[simp] theorem feedAll_nil (e : Engine) (file : Option String) :
    e.feedAll file [] = ⟨[], .ok e, []⟩ := rfl

variable {e e' : Engine} {file : Option String} {c : CodePoint} {text rest : List CodePoint}
  {tokens : List Token} {notices : List Notice} {x : ReadError}

theorem feedAll_cons_of_ok (h : e.feed file c = .ok (tokens, e', notices)) :
    e.feedAll file (c :: rest) =
      ⟨tokens ++ (e'.feedAll file rest).tokens, (e'.feedAll file rest).outcome,
        notices ++ (e'.feedAll file rest).notices⟩ := by
  rw [feedAll, h]

theorem feedAll_cons_of_error (h : e.feed file c = .error x) :
    e.feedAll file (c :: rest) = ⟨[], .error x, []⟩ := by
  rw [feedAll, h]

/-- What the first character of a text does, and then the rest of the text. -/
theorem feedAll_cons_cases {outcome : Except ReadError Engine}
    (h : e.feedAll file (c :: rest) = ⟨tokens, outcome, notices⟩) :
    (∃ x, e.feed file c = .error x ∧ tokens = [] ∧ outcome = .error x ∧ notices = []) ∨
      ∃ out e₁ told tokens₁ notices₁, e.feed file c = .ok (out, e₁, told) ∧
        e₁.feedAll file rest = ⟨tokens₁, outcome, notices₁⟩ ∧
        tokens = out ++ tokens₁ ∧ notices = told ++ notices₁ := by
  cases hc : e.feed file c with
  | error x =>
    rw [feedAll_cons_of_error hc] at h
    obtain ⟨rfl, rfl, rfl⟩ : _ ∧ _ ∧ _ := by simpa using h
    exact Or.inl ⟨x, rfl, rfl, rfl, rfl⟩
  | ok fed =>
    obtain ⟨out, e₁, told⟩ := fed
    rw [feedAll_cons_of_ok hc] at h
    obtain ⟨rfl, rfl, rfl⟩ : _ ∧ _ ∧ _ := by simpa using h
    exact Or.inr ⟨out, e₁, told, _, _, rfl, rfl, rfl, rfl⟩

/-- **What holds of no text and goes on to hold with one character more holds of every text** that
is fed without an error. -/
theorem feedAll_induction {P : Engine → List CodePoint → List Token → Engine → List Notice → Prop}
    (nil : ∀ e, P e [] [] e [])
    (cons : ∀ {e e₁ e' c rest out tokens told notices}, e.feed file c = .ok (out, e₁, told) →
      P e₁ rest tokens e' notices → P e (c :: rest) (out ++ tokens) e' (told ++ notices))
    (h : e.feedAll file text = ⟨tokens, .ok e', notices⟩) : P e text tokens e' notices := by
  induction text generalizing e tokens notices with
  | nil =>
    obtain ⟨rfl, rfl, rfl⟩ : _ ∧ _ ∧ _ := by simpa using h
    exact nil e
  | cons c text ih =>
    rcases feedAll_cons_cases h with
      ⟨x, -, -, hx, -⟩ | ⟨out, e₁, told, tokens₁, notices₁, hc, h₁, rfl, rfl⟩
    · simp at hx
    · exact cons hc (ih h₁)

/-- A text may be fed in two parts. -/
theorem feedAll_append (h : e.feedAll file text = ⟨tokens, .ok e', notices⟩)
    (rest : List CodePoint) :
    e.feedAll file (text ++ rest) =
      ⟨tokens ++ (e'.feedAll file rest).tokens, (e'.feedAll file rest).outcome,
        notices ++ (e'.feedAll file rest).notices⟩ := by
  refine feedAll_induction (P := fun e text tokens e' notices => e.feedAll file (text ++ rest) =
    ⟨tokens ++ (e'.feedAll file rest).tokens, (e'.feedAll file rest).outcome,
      notices ++ (e'.feedAll file rest).notices⟩) ?_ ?_ h
  · intro e
    simp
  · intro e e₁ e' c text out tokens told notices hc ih
    rw [List.cons_append, feedAll_cons_of_ok hc, ih]
    simp

/-- An error comes from one character, after the text before it has been fed. -/
theorem exists_of_feedAll_eq_error (h : e.feedAll file text = ⟨tokens, .error x, notices⟩) :
    ∃ before c rest e', text = before ++ c :: rest ∧
      e.feedAll file before = ⟨tokens, .ok e', notices⟩ ∧ e'.feed file c = .error x := by
  induction text generalizing e tokens notices with
  | nil => simp at h
  | cons c text ih =>
    rcases feedAll_cons_cases h with
      ⟨y, hc, rfl, hy, rfl⟩ | ⟨out, e₁, told, tokens₁, notices₁, hc, h₁, rfl, rfl⟩
    · obtain rfl : x = y := by simpa using hy
      exact ⟨[], c, text, e, rfl, rfl, hc⟩
    · obtain ⟨before, d, rest, e', rfl, hbefore, hd⟩ := ih h₁
      refine ⟨c :: before, d, rest, e', rfl, ?_, hd⟩
      rw [feedAll_cons_of_ok hc, hbefore]

theorem Leading.feedAll (he : e.Leading) (h : e.feedAll file text = ⟨tokens, .ok e', notices⟩) :
    e'.Leading := by
  revert he
  refine feedAll_induction (P := fun e _ _ e' _ => e.Leading → e'.Leading) ?_ ?_ h
  · intro e he
    exact he
  · intro e e₁ e' c rest out tokens told notices hc ih he
    exact ih (he.feed hc)

/-! ### What feeding leaves alone -/

theorem layout_feed (h : e.feed file c = .ok (tokens, e', notices)) : e'.layout = e.layout := by
  have hfeeds := feeds_feed e file c
  rw [h] at hfeeds
  cases hfeeds with
  | hold => exact e.layout_arrive c
  | pass => exact e.layout_arrive c
  | level => exact e.layout_arrive c

theorem tracker_feed (h : e.feed file c = .ok (tokens, e', notices)) :
    e'.tracker = e.tracker.observe c := by
  have hfeeds := feeds_feed e file c
  have hsame (hesc : e.escapes c = false) : (e.arrive c).tracker = e.tracker.observe c := by
    rw [tracker_arrive]
    exact (congrArg tracker (observe_of_escapes_eq_false hesc)).symm
  rw [h] at hfeeds
  cases hfeeds with
  | hold hesc _ _ => exact hsame hesc
  | pass _ => exact congrArg (Tracker.observe · c) (e.tracker_arrive c)
  | level hdec _ _ => exact hsame hdec.escapes_eq

theorem layout_feedAll (h : e.feedAll file text = ⟨tokens, .ok e', notices⟩) :
    e'.layout = e.layout := by
  refine feedAll_induction (P := fun e _ _ e' _ => e'.layout = e.layout) ?_ ?_ h
  · intro e
    rfl
  · intro e e₁ e' c rest out tokens told notices hc ih
    rw [ih, layout_feed hc]

end Engine

/-! ### Reading to the end -/

namespace Stream

section Drain

variable {σ : Type}

/-- What is delivered after some tokens. -/
def ahead (tokens : List Token) (notices : List Notice)
    (r : List Token × Reply (Stream σ) Unit) : List Token × Reply (Stream σ) Unit :=
  (tokens ++ r.1, r.2.after notices)

@[simp] theorem ahead_nil (r : List Token × Reply (Stream σ) Unit) : ahead [] [] r = r := rfl

@[simp] theorem ahead_ahead (ts us : List Token) (ns ms : List Notice)
    (r : List Token × Reply (Stream σ) Unit) :
    ahead ts ns (ahead us ms r) = ahead (ts ++ us) (ns ++ ms) r := by
  simp [ahead]

variable [CharSource σ]

/-- All the text that is left is read by iteration. -/
theorem read_eq_drain (s : Stream σ) :
    s.read (-1) = s.drain.2.map fun _ => Token.text s.drain.1 := by
  rw [read, if_pos (by decide)]

/-- Reads on to the end after a request. -/
def drainAfter : Reply (Stream σ) (Option Token) → List Token × Reply (Stream σ) Unit
  | ⟨.error e, s, notices⟩ => ([], ⟨.error e, s, notices⟩)
  | ⟨.ok none, s, notices⟩ => ([], ⟨.ok (), s, notices⟩)
  | ⟨.ok (some t), s, notices⟩ => ahead [t] notices s.drain

theorem drain_eq (s : Stream σ) : s.drain = drainAfter s.next := by
  rw [drain]
  split
  · next h => rw [h]; rfl
  · next h => rw [h]; rfl
  · next h => rw [h]; rfl

theorem drainAfter_after (r : Reply (Stream σ) (Option Token)) (notices : List Notice) :
    drainAfter (r.after notices) = ahead [] notices (drainAfter r) := by
  obtain ⟨_ | _ | _, _, _⟩ := r <;> simp [drainAfter, Reply.after, ahead]

theorem drain_of_queue_eq_cons {s : Stream σ} {t : Token} {rest : List (Option Token)}
    (hopen : s.closed = false) (hq : s.engine.queue = some t :: rest) :
    s.drain = ahead [t] [] (s.handed t rest).drain := by
  rw [drain_eq, next_of_queue_ne_nil hopen (by simp [hq]), handOut_of_queue_eq_cons hq]
  rfl

/-- A queue of tokens is delivered as it stands. -/
theorem drain_queue {s : Stream σ} (hopen : s.closed = false) (tokens : List Token) (last : Token)
    (hq : s.engine.queue = (tokens ++ [last]).map some) :
    s.drain = ahead (tokens ++ [last]) [] (s.handed last []).drain := by
  induction tokens generalizing s with
  | nil => exact drain_of_queue_eq_cons hopen hq
  | cons t tokens ih =>
    have hcons : s.engine.queue = some t :: (tokens ++ [last]).map some := hq
    have hrest : (s.handed t ((tokens ++ [last]).map some)).drain =
        ahead (tokens ++ [last]) [] (s.handed last []).drain := ih hopen rfl
    rw [drain_of_queue_eq_cons hopen hcons, hrest, ahead_ahead]
    rfl

/-- The stream when the input has ended and all levels are closed. -/
def ended (s : Stream σ) (lineStart : Bool) : Stream σ :=
  { s with engine :=
      { s.engine with
        stack := {}
        queue := []
        dedents := s.engine.dedents + s.engine.depth
        lineStart := lineStart } }

/-- What there is to report when the input ends at some depth. -/
def flushNotices (depth : Nat) : List Notice := if depth = 0 then [] else [.flush depth]

/-- When no level is open, a queue that ends the input is delivered, and nothing after it. -/
theorem drain_ending_of_depth_eq_zero {s : Stream σ} (hopen : s.closed = false)
    (hdepth : s.engine.depth = 0) (tokens : List Token)
    (hq : s.engine.queue = tokens.map some ++ [none]) :
    ∃ b, s.drain = (tokens, ⟨.ok (), s.ended b, []⟩) := by
  induction tokens generalizing s with
  | nil =>
    refine ⟨s.engine.lineStart, ?_⟩
    have hstack : s.engine.stack = {} := Stack.eq_empty_of_depth_eq_zero hdepth
    rw [drain_eq, next_of_queue_ne_nil hopen (by simp [hq]), handOut_of_depth_eq_zero hq hdepth]
    simp only [drainAfter, ended, shift, hdepth, ← hstack, Nat.add_zero]
  | cons t tokens ih =>
    have hcons : s.engine.queue = some t :: (tokens.map some ++ [none]) := hq
    obtain ⟨b, hb⟩ := ih (s := s.handed t (tokens.map some ++ [none])) hopen hdepth rfl
    refine ⟨b, ?_⟩
    rw [drain_of_queue_eq_cons hopen hcons, hb]
    rfl

/-- A queue that ends the input is delivered, and then a mark for each open level. -/
theorem drain_ending {s : Stream σ} (hopen : s.closed = false) (tokens : List Token)
    (hq : s.engine.queue = tokens.map some ++ [none]) :
    ∃ b, s.drain = (tokens ++ List.replicate s.engine.depth s.engine.dedentToken,
      ⟨.ok (), s.ended b, flushNotices s.engine.depth⟩) := by
  cases hdepth : s.engine.depth with
  | zero =>
    obtain ⟨b, hb⟩ := drain_ending_of_depth_eq_zero hopen hdepth tokens hq
    exact ⟨b, by simp [hb, flushNotices]⟩
  | succ n =>
    induction tokens generalizing s with
    | nil =>
      -- the first mark is handed out by the flush, and the others are queued before the end
      obtain ⟨b, hb⟩ := drain_ending_of_depth_eq_zero (s := s.flushed n) hopen rfl
        (List.replicate n s.engine.dedentToken) (by simp [flushed])
      refine ⟨b, ?_⟩
      rw [drain_eq, next_of_queue_ne_nil hopen (by simp [hq]), handOut_of_depth_eq_succ hq hdepth,
        drainAfter, hb]
      simp [ahead, ended, flushed, flushNotices, List.replicate_succ, Engine.depth, Reply.after]
      exact hdepth.symm
    | cons t tokens ih =>
      have hcons : s.engine.queue = some t :: (tokens.map some ++ [none]) := hq
      obtain ⟨b, hb⟩ := ih (s := s.handed t (tokens.map some ++ [none])) hopen rfl hdepth
      refine ⟨b, ?_⟩
      rw [drain_of_queue_eq_cons hopen hcons, hb]
      rfl

end Drain

/-! ### A text in memory -/

/-- A stream over a text. -/
def ofText (name : Option String) (e : Engine) (text : List CodePoint) : Stream TextSource where
  source := { rest := text, name := name }
  name := name
  engine := e

variable {name : Option String} {e e' : Engine} {c : CodePoint} {text rest : List CodePoint}
  {tokens : List Token} {notices : List Notice} {x : ReadError}

theorem pull_ofText_nil (he : e.exhausted = false) :
    (ofText name e []).pull = ⟨.ok none, ofText name e.finish [], []⟩ := by
  simp [pull, ofText, he, CharSource.pull, TextSource.pull]

theorem pull_ofText_cons (he : e.exhausted = false) :
    (ofText name e (c :: text)).pull = ⟨.ok (some c), ofText name (e.arrive c) text, []⟩ := by
  simp [pull, ofText, he, CharSource.pull, TextSource.pull]

/-- The end of a text lets out what was held back and closes the open levels. -/
theorem drainAfter_request_nil (he : e.Leading) (name : Option String) :
    ∃ b, drainAfter (ofText name e []).request =
      (e.due ++ List.replicate e.depth e.dedentToken,
        ⟨.ok (), (ofText name e.finish []).ended b, flushNotices e.depth⟩) := by
  let s : Stream TextSource := ofText name (e.finish.enqueue none) []
  have hreq : (ofText name e []).request = s.handOut := by
    rw [request_eq, pull_ofText_nil he.more]
    rfl
  have hq : s.engine.queue = e.due.map some ++ [none] := by
    rw [← he.queue_eq_due]
    rfl
  obtain ⟨b, hb⟩ := drain_ending (s := s) rfl e.due hq
  refine ⟨b, ?_⟩
  rw [hreq, ← next_of_queue_ne_nil (s := s) rfl (by simp [hq]), ← drain_eq, hb]
  rfl

/-- A character of a text lets out what feeding it does. -/
theorem drainAfter_request_cons (he : e.Leading) (h : e.feed name c = .ok (tokens, e', notices)) :
    drainAfter (ofText name e (c :: text)).request =
      ahead tokens notices (drainAfter (ofText name e' text).request) := by
  rw [request_eq, pull_ofText_cons he.more]
  simp only [answer, Reply.after_nil]
  rw [Engine.feed] at h
  split at h
  · next hholds =>
    obtain ⟨rfl, rfl, rfl⟩ : _ ∧ _ ∧ _ := by simpa using h
    have hholds' : (ofText name (e.arrive c) text).engine.holds c = true := hholds
    rw [if_pos hholds', ahead_nil]
    rfl
  · next hholds =>
    have hholds' : ¬ (ofText name (e.arrive c) text).engine.holds c = true := hholds
    rw [if_neg hholds']
    split at h
    · simp at h
    · next e₁ told hrel =>
      obtain ⟨rfl, rfl, rfl⟩ : _ ∧ _ ∧ _ := by simpa using h
      have hrel' : (ofText name (e.arrive c) text).engine.release
          (ofText name (e.arrive c) text).name c = .ok (e₁, told) := hrel
      have hqueue : (e.arrive c).queue = (e.arrive c).due.map some := by
        simpa using he.queue_eq_due
      obtain ⟨out, hout⟩ := Engine.queue_of_release hqueue hrel
      -- the queue is delivered, and then the stream asks its source again
      let s : Stream TextSource := ofText name e₁ text
      have hne : s.engine.queue ≠ [] := by simp [s, ofText, hout]
      have hnext : s.handOut = s.next := (next_of_queue_ne_nil rfl hne).symm
      have hdue : e₁.due = out ++ [Token.content c] := by
        rw [Engine.due, hout]
        simp [List.reduceOption]
      have hlast : s.handed (.content c) [] = ofText name (e₁.delivered c) text := rfl
      rw [hrel']
      simp only [drainAfter_after]
      change ahead [] told (drainAfter s.handOut) = _
      rw [hnext, ← drain_eq, drain_queue rfl out (.content c) hout, ahead_ahead, hlast, hdue,
        drain_eq, next_eq_request rfl rfl]
      simp

/-- A character that is an error ends the reading. -/
theorem drainAfter_request_error (he : e.Leading) (h : e.feed name c = .error x) :
    drainAfter (ofText name e (c :: text)).request =
      ([], ⟨.error x, ofText name (e.arrive c) text, []⟩) := by
  rw [request_eq, pull_ofText_cons he.more]
  simp only [answer, Reply.after_nil]
  rw [Engine.feed] at h
  split at h
  · simp at h
  · next hholds =>
    have hholds' : ¬ (ofText name (e.arrive c) text).engine.holds c = true := hholds
    rw [if_neg hholds']
    split at h
    · next hrel =>
      obtain rfl : _ = x := by simpa using h
      have hrel' : (ofText name (e.arrive c) text).engine.release
          (ofText name (e.arrive c) text).name c = .error _ := hrel
      rw [hrel']
      rfl
    · simp at h

/-- A text is let out as feeding it does, and the rest of the text after it. -/
theorem drainAfter_request_append (he : e.Leading)
    (h : e.feedAll name text = ⟨tokens, .ok e', notices⟩) :
    drainAfter (ofText name e (text ++ rest)).request =
      ahead tokens notices (drainAfter (ofText name e' rest).request) := by
  revert he
  refine Engine.feedAll_induction (P := fun e text tokens e' notices => e.Leading →
    drainAfter (ofText name e (text ++ rest)).request =
      ahead tokens notices (drainAfter (ofText name e' rest).request)) ?_ ?_ h
  · intro e he
    rw [ahead_nil, List.nil_append]
  · intro e e₁ e' c text out tokens told notices hc ih he
    rw [List.cons_append, drainAfter_request_cons he hc, ih (he.feed hc), ahead_ahead]

theorem drain_ofText (hq : e.queue = []) (text : List CodePoint) :
    (ofText name e text).drain = drainAfter (ofText name e text).request := by
  rw [drain_eq, next_eq_request rfl hq]

/-- **Reading a text that fits** delivers what feeding it lets out, then the whitespace that is
still held back, and a mark for each open level. -/
theorem drain_of_feedAll_ok (he : e.Leading) (hq : e.queue = [])
    (h : e.feedAll name text = ⟨tokens, .ok e', notices⟩) :
    ∃ b, (ofText name e text).drain =
      (tokens ++ (e'.due ++ List.replicate e'.depth e'.dedentToken),
        ⟨.ok (), (ofText name e'.finish []).ended b, notices ++ flushNotices e'.depth⟩) := by
  obtain ⟨b, hb⟩ := drainAfter_request_nil (he.feedAll h) name
  refine ⟨b, ?_⟩
  have happend : drainAfter (ofText name e (text ++ [])).request = _ :=
    drainAfter_request_append he h
  rw [List.append_nil, hb] at happend
  rw [drain_ofText hq, happend]
  rfl

/-- **Reading a text that fails** delivers what feeding lets out before the character that is the
error, and leaves the text behind it unread. -/
theorem drain_of_feed_error (he : e.Leading) (hq : e.queue = [])
    (h : e.feedAll name text = ⟨tokens, .ok e', notices⟩) (hc : e'.feed name c = .error x)
    (rest : List CodePoint) :
    (ofText name e (text ++ c :: rest)).drain =
      (tokens, ⟨.error x, ofText name (e'.arrive c) rest, notices⟩) := by
  rw [drain_ofText hq, drainAfter_request_append he h,
    drainAfter_request_error (he.feedAll h) hc]
  simp [ahead, Reply.after]

end Stream

end Offside
