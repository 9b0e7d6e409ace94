import Mathlib.Data.List.ReduceOption
import Offside.Proofs.Levels
import Offside.Stream

/-!
# Requests as a loop over characters

A request to a stream with an empty queue asks the source for characters until one of them lets
something out.  Each character that arrives is either **held back**, as one more character of the
leading whitespace, or it **releases** what was held: verbatim, or with the marks of the line.
Told this way a request is one loop with the same step for every character, and the queue is at
all times the whitespace that is held back.

## Main definitions

* `Engine.fresh` — an analysis that has not been started.
* `Engine.holds`, `Engine.release` — what the analysis does with a character that has arrived.
* `Engine.Passes`, `Engine.Decides` — what a character is let out for.
* `Stream.handOut` — the first entry of the queue is delivered.
* `Stream.request` — the loop.

## Main results

* `Engine.settle_eq` — the marks of a line by the depths before and after it.
* `Stream.next_eq_request` — a request to an open stream with an empty queue is the loop.
-/

namespace Offside

namespace Reply

variable {σ α : Type}

@[simp] theorem after_nil (r : Reply σ α) : r.after [] = r := rfl

@[simp] theorem after_after (first second : List Notice) (r : Reply σ α) :
    (r.after second).after first = r.after (first ++ second) := by
  simp [after]

end Reply

/-! ### The marks of a line -/

/-- The marks between a line at one depth and a line at another. -/
def Layout.marks (l : Layout) (before after : Nat) : List Token :=
  if before < after then [⟨.indent, l.indentMark⟩]
  else List.replicate (before - after) ⟨.dedent, l.dedentMark⟩

@[simp] theorem Layout.marks_self (l : Layout) (n : Nat) : l.marks n n = [] := by
  simp [marks]

namespace Engine

/-- An analysis that has not been started. -/
def fresh (l : Layout) (rules : List Rule) : Engine where
  layout := l
  tracker := { rules := rules }

/-- What is wrong with a line that starts with `run` and fits no block. -/
def mismatch (e : Engine) (file : Option String) (run : List CodePoint) : Mismatch where
  line := e.line
  column := e.column
  run := run
  depth := e.depth
  matched := e.stack.matched run
  remainder := e.stack.leftover run
  file := file

/-- The analysis with the levels of a line that fits. -/
def relevel (e : Engine) (stack : Stack) : Engine where
  __ := e
  stack := stack
  indents := e.indents + (stack.depth - e.depth)
  dedents := e.dedents + (e.depth - stack.depth)

/-- What there is to report about a line that starts with `run`. -/
def levelNotices (e : Engine) (run : List CodePoint) (stack : Stack) : List Notice :=
  if e.depth < stack.depth then [.indent e.line (e.stack.leftover run) stack.depth]
  else if stack.depth < e.depth then [.dedent e.line (e.depth - stack.depth) stack.depth]
  else []

/-- **What a line does** depends on its run only through the stack after it. -/
theorem settle_eq (e : Engine) (file : Option String) (run : List CodePoint) (c : CodePoint) :
    e.settle file run c =
      match e.stack.advance? run with
      | none => .error (.mismatch (e.mismatch file run))
      | some stack => .ok ((e.relevel stack).place (e.layout.marks e.depth stack.depth) c,
          e.levelNotices run stack) := by
  rw [settle, Stack.advance?]
  cases hc : (e.stack.resolve run).change with
  | same => simp [relevel, levelNotices, depth]
  | indent =>
    have hne : e.stack.leftover run ≠ [] := (Resolution.change_eq_indent_iff.1 hc).2
    simp [opening, relevel, levelNotices, Layout.marks, depth, indentToken, Stack.resolve_eq,
      Level.ofRun?_of_ne hne]
  | dedent =>
    -- the levels that are closed are those that did not match
    obtain ⟨hne, -⟩ := Resolution.change_eq_dedent_iff.1 hc
    have hle := e.stack.matched_le_depth run
    have hlt : e.stack.matched run < e.stack.depth := by
      rw [Stack.resolve_eq] at hne
      simp only at hne
      omega
    have hpos : e.stack.depth - (e.stack.depth - e.stack.matched run) = e.stack.matched run := by
      omega
    simp [closing, relevel, levelNotices, Layout.marks, depth, dedentToken,
      Stack.dedents_resolve, hpos, hlt, Nat.not_lt.2 hle, Nat.sub_eq_zero_of_le hle]
  | malformed => rfl

/-! ### One character -/

section Arrive

variable (e : Engine) (c : CodePoint)

@[simp] theorem layout_arrive : (e.arrive c).layout = e.layout := by
  rw [arrive]; split <;> rfl

@[simp] theorem stack_arrive : (e.arrive c).stack = e.stack := by
  rw [arrive]; split <;> rfl

@[simp] theorem tracker_arrive : (e.arrive c).tracker = e.tracker := by
  rw [arrive]; split <;> rfl

@[simp] theorem queue_arrive : (e.arrive c).queue = e.queue := by
  rw [arrive]; split <;> rfl

@[simp] theorem lineStart_arrive : (e.arrive c).lineStart = e.lineStart := by
  rw [arrive]; split <;> rfl

@[simp] theorem exhausted_arrive : (e.arrive c).exhausted = e.exhausted := by
  rw [arrive]; split <;> rfl

@[simp] theorem indents_arrive : (e.arrive c).indents = e.indents := by
  rw [arrive]; split <;> rfl

@[simp] theorem dedents_arrive : (e.arrive c).dedents = e.dedents := by
  rw [arrive]; split <;> rfl

end Arrive

/-- The tokens that are queued. -/
def due (e : Engine) : List Token := e.queue.reduceOption

/-- Their characters; while a request is being answered, the whitespace that is held back. -/
def lead (e : Engine) : List CodePoint := Token.text e.due

/-- A character that has arrived is held back if it belongs to the whitespace that starts a
line. -/
def holds (e : Engine) (c : CodePoint) : Bool :=
  !e.escapes c && e.lineStart && c ∈ e.layout.whitespace

/-- Any other character lets out what was held back: as it was read, unless the character decides
about the levels. -/
def release (e : Engine) (file : Option String) (c : CodePoint) :
    Except ReadError (Engine × List Notice) :=
  if e.escapes c || !e.lineStart || c = e.layout.newline then
    .ok ((e.observe c).enqueue (some (.content c)), e.crossing c)
  else e.settle file e.lead c

theorem escapes_eq_false_iff {e : Engine} {c : CodePoint} :
    e.escapes c = false ↔ e.tracker.active = none ∧ e.tracker.opened c = none := by
  simp [escapes, Tracker.escapes]

/-- A character that is not escaped leaves the escape rules as they are. -/
theorem observe_of_escapes_eq_false {e : Engine} {c : CodePoint} (h : e.escapes c = false) :
    e.observe c = e := by
  obtain ⟨hactive, hopened⟩ := escapes_eq_false_iff.1 h
  have : e.tracker.observe c = e.tracker := by
    rw [Tracker.observe, hactive]
    simp only [hopened]
    rw [← hactive]
  rw [observe, this]

theorem crossing_of_escapes_eq_false {e : Engine} {c : CodePoint} (h : e.escapes c = false) :
    e.crossing c = [] := by
  obtain ⟨hactive, hopened⟩ := escapes_eq_false_iff.1 h
  simp [crossing, Tracker.crossing, hactive, hopened]

@[simp] theorem due_arrive (e : Engine) (c : CodePoint) : (e.arrive c).due = e.due := by
  rw [due, queue_arrive, due]

@[simp] theorem lead_arrive (e : Engine) (c : CodePoint) : (e.arrive c).lead = e.lead := by
  rw [lead, due_arrive, lead]

@[simp] theorem escapes_arrive (e : Engine) (c d : CodePoint) :
    (e.arrive c).escapes d = e.escapes d := by
  rw [escapes, tracker_arrive, escapes]

@[simp] theorem holds_arrive (e : Engine) (c d : CodePoint) : (e.arrive c).holds d = e.holds d := by
  simp [holds]

theorem due_enqueue_some (e : Engine) (t : Token) : (e.enqueue (some t)).due = e.due ++ [t] := by
  simp [due, enqueue, List.reduceOption_append]

theorem due_place (e : Engine) (marks : List Token) (c : CodePoint) :
    (e.place marks c).due =
      marks ++ (if e.layout.keepWhitespace then e.due else []) ++ [.content c] := by
  have hmarks : (marks.map some).reduceOption = marks := by simp [List.reduceOption]
  rw [due, place]
  simp only [List.reduceOption_append, hmarks]
  split <;> simp [due]

/-! ### What a character does -/

/-- A character is let out as it was read if it is escaped, if it does not start a line, or if it
ends a blank line. -/
def Passes (e : Engine) (c : CodePoint) : Prop :=
  e.escapes c = true ∨ e.lineStart = false ∨ (c = e.layout.newline ∧ c ∉ e.layout.whitespace)

/-- A character decides about the levels if it is the first of its line that is neither escaped
nor blank. -/
structure Decides (e : Engine) (c : CodePoint) : Prop where
  escapes_eq : e.escapes c = false
  lineStart_eq : e.lineStart = true
  notMem : c ∉ e.layout.whitespace
  ne_newline : c ≠ e.layout.newline

theorem holds_iff {e : Engine} {c : CodePoint} :
    e.holds c = true ↔ e.escapes c = false ∧ e.lineStart = true ∧ c ∈ e.layout.whitespace := by
  simp [holds, and_assoc]

/-- A character that is not held back is let out as it was read, or it decides. -/
theorem passes_or_decides {e : Engine} {c : CodePoint} (h : ¬ e.holds c = true) :
    e.Passes c ∨ e.Decides c := by
  rw [holds_iff] at h
  by_cases hesc : e.escapes c = true
  · exact Or.inl (Or.inl hesc)
  · by_cases hline : e.lineStart = false
    · exact Or.inl (Or.inr (Or.inl hline))
    · rw [Bool.not_eq_true] at hesc
      rw [Bool.not_eq_false] at hline
      have hc : c ∉ e.layout.whitespace := fun hc => h ⟨hesc, hline, hc⟩
      by_cases hnl : c = e.layout.newline
      · exact Or.inl (Or.inr (Or.inr ⟨hnl, hc⟩))
      · exact Or.inr ⟨hesc, hline, hc, hnl⟩

theorem passes_arrive (e : Engine) (c d : CodePoint) : (e.arrive c).Passes d ↔ e.Passes d := by
  simp [Passes]

theorem Decides.arrive {e : Engine} {d : CodePoint} (h : e.Decides d) (c : CodePoint) :
    (e.arrive c).Decides d where
  escapes_eq := by rw [escapes_arrive, h.escapes_eq]
  lineStart_eq := by rw [lineStart_arrive, h.lineStart_eq]
  notMem := by
    rw [layout_arrive]
    exact h.notMem
  ne_newline := by
    rw [layout_arrive]
    exact h.ne_newline

theorem release_of_passes {e : Engine} {c : CodePoint} (h : e.Passes c) (file : Option String) :
    e.release file c = .ok ((e.observe c).enqueue (some (.content c)), e.crossing c) := by
  have hcond : (e.escapes c || !e.lineStart || c = e.layout.newline) = true := by
    rcases h with hesc | hline | ⟨hnl, -⟩
    · rw [hesc, Bool.true_or, Bool.true_or]
    · rw [hline, Bool.not_false, Bool.or_true, Bool.true_or]
    · rw [decide_eq_true hnl, Bool.or_true]
  rw [release, if_pos hcond]

theorem release_of_decides {e : Engine} {c : CodePoint} (h : e.Decides c) (file : Option String) :
    e.release file c = e.settle file e.lead c := by
  rw [release, if_neg]
  simp [h.escapes_eq, h.lineStart_eq, h.ne_newline]

/-- A character that releases something is the last of what is let out. -/
theorem queue_of_release {e e' : Engine} {c : CodePoint} {file : Option String}
    {notices : List Notice} (hq : e.queue = e.due.map some)
    (h : e.release file c = .ok (e', notices)) :
    ∃ tokens, e'.queue = (tokens ++ [Token.content c]).map some := by
  rw [release] at h
  split at h
  · obtain ⟨rfl, -⟩ : _ ∧ _ := by simpa using h
    exact ⟨e.due, by simp [enqueue, observe, ← hq]⟩
  · rw [settle_eq] at h
    cases hstack : e.stack.advance? e.lead with
    | none => simp [hstack] at h
    | some stack =>
      obtain ⟨rfl, -⟩ : _ ∧ _ := by simpa [hstack] using h
      refine ⟨e.layout.marks e.depth stack.depth ++
        if e.layout.keepWhitespace then e.due else [], ?_⟩
      have hqueue : (e.relevel stack).queue = e.due.map some := hq
      rw [place, hqueue]
      cases hkeep : e.layout.keepWhitespace <;> simp [relevel, hkeep]

/-- An entry that is queued alone is the one that is taken. -/
theorem dequeue_enqueue_of_nil {e : Engine} (hq : e.queue = []) (entry : Option Token) :
    (e.enqueue entry).dequeue = (entry, e) := by
  obtain ⟨⟩ := e
  simp_all [enqueue, dequeue]

theorem lead_of_queue_eq {e : Engine} {run : List CodePoint}
    (h : e.queue = run.map fun c => some (Token.content c)) : e.lead = run := by
  have : e.queue = (run.map Token.content).map some := by simp [h]
  rw [lead, due, this, List.reduceOption, List.filterMap_map]
  simp [Token.text, Function.comp_def]

end Engine

/-! ### The loop -/

namespace Stream

variable {σ : Type}

/-- Delivers the first entry of the queue. -/
def handOut (s : Stream σ) : Reply (Stream σ) (Option Token) :=
  { s with engine := s.engine.dequeue.2 }.deliver s.engine.dequeue.1

/-- A closed stream does nothing. -/
theorem next_of_closed [CharSource σ] {s : Stream σ} (h : s.closed = true) :
    s.next = ⟨.error .closedStream, s, []⟩ := if_pos h

/-- An open stream with something in its queue hands that out. -/
theorem next_of_queue_ne_nil [CharSource σ] {s : Stream σ} (hopen : s.closed = false)
    (hq : s.engine.queue ≠ []) : s.next = s.handOut := by
  cases hs : s.engine.queue with
  | nil => exact absurd hs hq
  | cons entry rest => simp [next, hopen, hs, handOut, Engine.dequeue, shift]

variable {s : Stream σ}

/-- The stream when a token has been delivered and `rest` is left in its queue. -/
def handed (s : Stream σ) (t : Token) (rest : List (Option Token)) : Stream σ :=
  { s with engine :=
      { s.engine with queue := rest, lineStart := t.char = s.engine.layout.newline } }

/-- The stream when the first mark of the end has been delivered, at a depth of `n + 1`. -/
def flushed (s : Stream σ) (n : Nat) : Stream σ :=
  { s with engine :=
      { s.engine with
        stack := {}
        queue := List.replicate n (some s.engine.dedentToken) ++ [none]
        dedents := s.engine.dedents + (n + 1)
        lineStart := false } }

theorem handOut_of_queue_eq_cons {t : Token} {rest : List (Option Token)}
    (hq : s.engine.queue = some t :: rest) : s.handOut = ⟨.ok (some t), s.handed t rest, []⟩ := by
  simp [handOut, Engine.dequeue, hq, deliver, Engine.deliver, handed]

/-- The end is met at the outermost level. -/
theorem handOut_of_depth_eq_zero {rest : List (Option Token)} (hq : s.engine.queue = none :: rest)
    (hdepth : s.engine.depth = 0) : s.handOut = ⟨.ok none, s.shift rest, []⟩ := by
  have hflush : ({ s.engine with queue := rest } : Engine).flush =
      (none, { s.engine with queue := rest }, []) := if_pos hdepth
  simp only [handOut, Engine.dequeue, hq, deliver, Engine.deliver, hflush, shift]

/-- The end is met inside some blocks. -/
theorem handOut_of_depth_eq_succ {n : Nat} (hq : s.engine.queue = [none])
    (hdepth : s.engine.depth = n + 1) :
    s.handOut = ⟨.ok (some s.engine.dedentToken), s.flushed n, [.flush (n + 1)]⟩ := by
  have hflush : ({ s.engine with queue := [] } : Engine).depth = n + 1 := hdepth
  simp [handOut, Engine.dequeue, hq, deliver, Engine.deliver, Engine.flush, hflush, flushed,
    List.replicate_succ, Engine.dedentToken]

/-! ### The loop itself -/

variable [CharSource σ]

/-- Asks the source for characters until one of them releases something. -/
def request (s : Stream σ) : Reply (Stream σ) (Option Token) :=
  match _h : s.pull with
  | ⟨.error e, s', notices⟩ => ⟨.error e, s', notices⟩
  | ⟨.ok none, s', notices⟩ =>
    { s' with engine := s'.engine.enqueue none }.handOut.after notices
  | ⟨.ok (some c), s', notices⟩ =>
    if s'.engine.holds c then (s'.hold c).request.after notices
    else match s'.engine.release s'.name c with
      | .error e => ⟨.error e, s', notices⟩
      | .ok (engine, more) => { s' with engine := engine }.handOut.after (notices ++ more)
termination_by CharSource.remaining s.source
decreasing_by
  have hlt := remaining_source_pull_lt _h
  exact hlt

/-- How a request goes on from a character that has arrived. -/
def answer (s : Stream σ) (c : CodePoint) : Reply (Stream σ) (Option Token) :=
  if s.engine.holds c then (s.hold c).request
  else match s.engine.release s.name c with
    | .error e => ⟨.error e, s, []⟩
    | .ok (engine, notices) => { s with engine := engine }.handOut.after notices

theorem request_eq (s : Stream σ) :
    s.request =
      match s.pull with
      | ⟨.error e, s', notices⟩ => ⟨.error e, s', notices⟩
      | ⟨.ok none, s', notices⟩ =>
        { s' with engine := s'.engine.enqueue none }.handOut.after notices
      | ⟨.ok (some c), s', notices⟩ => (s'.answer c).after notices := by
  rw [request]
  split
  · next h => rw [h]
  · next h => rw [h]
  · next c s' notices h =>
    rw [h]
    simp only [answer]
    split
    · rfl
    · cases s'.engine.release s'.name c with
      | error e => simp [Reply.after]
      | ok released => simp [Reply.after]

/-! ### The loop and the scanner -/

omit [CharSource σ] in
/-- Delivers what a reply found. -/
def serve : Reply (Stream σ) (Option Token) → Reply (Stream σ) (Option Token)
  | ⟨.error e, s, notices⟩ => ⟨.error e, s, notices⟩
  | ⟨.ok entry, s, notices⟩ => (s.deliver entry).after notices

omit [CharSource σ] in
theorem serve_after (r : Reply (Stream σ) (Option Token)) (earlier : List Notice) :
    serve (r.after earlier) = (serve r).after earlier := by
  obtain ⟨_ | _, _, _⟩ := r <;> simp [serve, Reply.after]

omit [CharSource σ] in
theorem serve_replay (s : Stream σ) (entry : Option Token) :
    serve (s.replay entry) = { s with engine := s.engine.enqueue entry }.handOut := by
  simp [serve, replay, handOut, Reply.after]

/-- Asking the source leaves the queue alone. -/
theorem queue_of_pull {s s' : Stream σ} {o : Except ReadError (Option CodePoint)}
    {notices : List Notice} (h : s.pull = ⟨o, s', notices⟩) :
    s'.engine.queue = s.engine.queue := by
  unfold pull at h
  split at h
  · obtain ⟨-, rfl, -⟩ : _ ∧ _ ∧ _ := by simpa using h
    rfl
  · split at h <;> obtain ⟨-, rfl, -⟩ : _ ∧ _ ∧ _ := by simpa using h
    · rfl
    · simp
    · rfl

/-- What the pulling of a character leaves alone. -/
theorem engine_of_pull {s s' : Stream σ} {c : CodePoint} {notices : List Notice}
    (h : s.pull = ⟨.ok (some c), s', notices⟩) :
    s'.engine = s.engine.arrive c ∧ s'.name = s.name ∧ s'.closed = s.closed := by
  unfold pull at h
  split at h
  · simp at h
  · split at h
    · simp at h
    · obtain ⟨rfl, rfl, rfl⟩ : _ ∧ _ ∧ _ := by simpa using h
      exact ⟨rfl, rfl, rfl⟩
    · simp at h

/-- Reading the whitespace of a line on from an unescaped character is the loop. -/
theorem serve_scan (s : Stream σ) (run : List CodePoint) (c : CodePoint)
    (hesc : s.engine.escapes c = false) (hline : s.engine.lineStart = true)
    (hq : s.engine.queue = run.map fun c => some (Token.content c)) :
    serve (s.scan run c) = s.answer c := by
  -- by the length of the source: the run of the scanner is what the loop has queued
  fun_induction scan s run c with
  | case1 s run c hc e s' notices h =>
    have hholds : s.engine.holds c = true := by simp [Engine.holds, hesc, hline, hc]
    rw [answer, hholds, request_eq, h]
    rfl
  | case2 s run c hc s' notices h =>
    have hholds : s.engine.holds c = true := by simp [Engine.holds, hesc, hline, hc]
    rw [answer, hholds, request_eq, h, serve_after, serve_replay]
    rfl
  | case3 s run c hc d s' notices h heard hd =>
    have hholds : s.engine.holds c = true := by simp [Engine.holds, hesc, hline, hc]
    -- the next character is escaped: the run is let out before it as it stands
    have hd' : s'.engine.holds d = false := by simp [Engine.holds, hd]
    have hrel : s'.engine.release s'.name d =
        .ok ((s'.engine.observe d).enqueue (some (.content d)), s'.engine.crossing d) := by
      simp [Engine.release, hd]
    rw [answer, hholds, request_eq, h, serve_after, serve_replay]
    simp only [↓reduceIte, answer, hd', hrel, Bool.false_eq_true, Reply.after_after]
    rfl
  | case4 s run c hc d s' notices h heard hd ih =>
    have hholds : s.engine.holds c = true := by simp [Engine.holds, hesc, hline, hc]
    -- whitespace goes on: the next character does not change the escape rules
    have hd' : s'.engine.escapes d = false := by simpa using hd
    obtain ⟨hengine, -, -⟩ := engine_of_pull h
    have hobserve : s'.observe d = s' := by
      rw [observe, Engine.observe_of_escapes_eq_false hd']
    have hheard : heard = notices := by
      simp [heard, Engine.crossing_of_escapes_eq_false hd']
    rw [hobserve] at ih ⊢
    rw [answer, hholds, request_eq, h, serve_after, ih hd', hheard]
    · rfl
    · simp [hengine, hold, Engine.enqueue, hline]
    · simp [hengine, hold, Engine.enqueue, hq]
  | case5 s run hc =>
    -- a newline ends the run, which belongs to a blank line
    have hholds : s.engine.holds s.engine.layout.newline = false := by simp [Engine.holds, hc]
    rw [answer, hholds, serve_replay]
    simp [Engine.release, Engine.observe_of_escapes_eq_false hesc,
      Engine.crossing_of_escapes_eq_false hesc, Reply.after]
  | case6 s run c hc hnl =>
    -- a character that decides: the line settles at the level of the run
    have hholds : s.engine.holds c = false := by simp [Engine.holds, hc]
    have hrel : s.engine.release s.name c = s.engine.settle s.name run c := by
      simp [Engine.release, hesc, hline, hnl, Engine.lead_of_queue_eq hq]
    rw [answer, hholds, settle, hrel]
    simp only [Bool.false_eq_true, ↓reduceIte]
    cases s.engine.settle s.name run c with
    | error e => rfl
    | ok settled => simp [serve, handOut]

/-- What a request does with its first character. -/
theorem take_eq (s : Stream σ) (c : CodePoint) (hq : s.engine.queue = []) :
    s.take c = s.answer c := by
  rw [take]
  split
  · next h =>
    have hholds : s.engine.holds c = false := by
      rcases Bool.or_eq_true _ _ ▸ h with hesc | hline
      · simp [Engine.holds, hesc]
      · simp [Engine.holds, Bool.not_eq_true' _ ▸ hline]
    have hrel : s.engine.release s.name c =
        .ok ((s.engine.observe c).enqueue (some (.content c)), s.engine.crossing c) := by
      simp only [Engine.release, h, Bool.true_or, ↓reduceIte]
    have hq' : (s.engine.observe c).queue = [] := hq
    rw [answer, hholds, hrel]
    simp only [Bool.false_eq_true, ↓reduceIte, handOut, Engine.dequeue_enqueue_of_nil hq']
    rfl
  · next h =>
    have hesc : s.engine.escapes c = false := by simp_all
    have hline : s.engine.lineStart = true := by simp_all
    have hobserve : s.observe c = s := by
      rw [observe, Engine.observe_of_escapes_eq_false hesc]
    rw [← serve_scan s [] c hesc hline (by simpa using hq), hobserve,
      Engine.crossing_of_escapes_eq_false hesc]
    rfl

/-- **A request to an open stream with an empty queue is the loop.** -/
theorem next_eq_request {s : Stream σ} (hopen : s.closed = false) (hq : s.engine.queue = []) :
    s.next = s.request := by
  rw [next, request_eq]
  simp only [hopen, hq, Bool.false_eq_true, ↓reduceIte]
  cases hpull : s.pull with
  | mk outcome s' notices =>
    have hq' : s'.engine.queue = [] := by rw [queue_of_pull hpull, hq]
    rcases outcome with x | _ | c
    · rfl
    · simp only [handOut, Engine.dequeue_enqueue_of_nil hq']
    · simp only [take_eq s' c hq']

end Stream

end Offside
