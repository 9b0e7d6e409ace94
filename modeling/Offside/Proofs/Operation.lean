import Offside.Engine.Configure
import Offside.Proofs.Request
import Offside.Stream.Read

/-!
# Operations on a stream

What may be done to a stream, in any order: reading by one, by many or to the end, closing it or
its source, and changing the conventions.  An operation may fail, and the stream can be used
afterwards all the same; what it handed out before it failed was handed out.

All reading comes down to single requests.  A request hands out what is queued; if nothing is, the
source is asked for characters, which are held back until one of them lets something out.  To show
that something holds of a stream at all times it is enough to look at these steps.

## Main definitions

* `tokensOf` — the token that an answer hands out.
* `Stream.Request` — what asking the source comes to.
* `Convention`, `Operation` — what may be done to a stream.
* `Stream.perform`, `Stream.run` — the tokens that operations hand out, and the stream after them.
* `Stream.turnsIn` — the requests that operations come to.
* `Stream.Journal`, `Stream.Invariant` — what one step preserves, for the requests before it and
  for their tokens.

## Main results

* `Stream.next_cases` — what a request does to a stream.
* `Stream.readValue_eq_reading` — what is returned is what was handed out.
* `Stream.handedOut_turnsIn` — the tokens of a run are those of its requests.
* `Stream.Journal.run`, `Stream.Invariant.run` — what holds at all times.
-/

namespace Offside

/-- The token that an answer hands out, if it does. -/
def tokensOf : Except ReadError (Option Token) → List Token
  | .ok (some t) => [t]
  | _ => []

@[simp] theorem tokensOf_some (t : Token) : tokensOf (.ok (some t)) = [t] := rfl

@[simp] theorem tokensOf_none : tokensOf (.ok none) = [] := rfl

@[simp] theorem tokensOf_error (x : ReadError) : tokensOf (.error x) = [] := rfl

theorem mem_tokensOf {outcome : Except ReadError (Option Token)} {t : Token}
    (h : t ∈ tokensOf outcome) : outcome = .ok (some t) := by
  match outcome with
  | .ok (some u) => rw [List.mem_singleton.1 h]
  | .ok none => simp at h
  | .error x => simp at h

namespace Stream

variable {σ : Type} [CharSource σ]

/-! ### What a request does -/

/-- Asking the source comes to an answer, and leaves a stream. -/
inductive Request : Stream σ → Except ReadError (Option Token) → Stream σ → Prop where
  /-- The source fails. -/
  | fail {s s' : Stream σ} {x : ReadError} {notices : List Notice}
      (h : s.pull = ⟨.error x, s', notices⟩) : Request s (.error x) s'
  /-- The input ends. -/
  | stop {s s' : Stream σ} {notices : List Notice} (h : s.pull = ⟨.ok none, s', notices⟩) :
      Request s { s' with engine := s'.engine.enqueue none }.handOut.outcome
        { s' with engine := s'.engine.enqueue none }.handOut.next
  /-- A character is held back, and the source is asked again. -/
  | hold {s s' t : Stream σ} {c : CodePoint} {notices : List Notice}
      {outcome : Except ReadError (Option Token)} (h : s.pull = ⟨.ok (some c), s', notices⟩)
      (hc : s'.engine.holds c = true) (hrest : Request (s'.hold c) outcome t) : Request s outcome t
  /-- A character lets something out. -/
  | release {s s' : Stream σ} {c : CodePoint} {notices told : List Notice} {e : Engine}
      (h : s.pull = ⟨.ok (some c), s', notices⟩) (hc : ¬ s'.engine.holds c = true)
      (he : s'.engine.release s'.name c = .ok (e, told)) :
      Request s { s' with engine := e }.handOut.outcome { s' with engine := e }.handOut.next
  /-- A character shows that its line is malformed. -/
  | misfit {s s' : Stream σ} {c : CodePoint} {notices : List Notice} {x : ReadError}
      (h : s.pull = ⟨.ok (some c), s', notices⟩) (hc : ¬ s'.engine.holds c = true)
      (hx : s'.engine.release s'.name c = .error x) : Request s (.error x) s'

theorem request_request (s : Stream σ) : Request s s.request.outcome s.request.next := by
  fun_induction request s with
  | case1 s e s' notices h => exact .fail h
  | case2 s s' notices h => exact .stop h
  | case3 s c s' notices h hc ih => exact .hold h hc ih
  | case4 s c s' notices h hc e hx => exact .misfit h hc hx
  | case5 s c s' notices h hc engine more he => exact .release h hc he

/-- **What a request does to a stream.** -/
theorem next_cases (s : Stream σ) :
    s.next = ⟨.error .closedStream, s, []⟩ ∨
      (s.engine.queue ≠ [] ∧ s.next = s.handOut) ∨
      (s.engine.queue = [] ∧ Request s s.next.outcome s.next.next) := by
  by_cases hclosed : s.closed = true
  · exact Or.inl (next_of_closed hclosed)
  · rw [Bool.not_eq_true] at hclosed
    by_cases hq : s.engine.queue = []
    · refine Or.inr (Or.inr ⟨hq, ?_⟩)
      rw [next_eq_request hclosed hq]
      exact s.request_request
    · exact Or.inr (Or.inl ⟨hq, next_of_queue_ne_nil hclosed hq⟩)

theorem engine_of_pull_error {s s' : Stream σ} {x : ReadError} {notices : List Notice}
    (h : s.pull = ⟨.error x, s', notices⟩) : s'.engine = s.engine := by
  unfold pull at h
  split at h
  · simp at h
  · split at h
    · simp at h
    · simp at h
    · obtain ⟨-, rfl, -⟩ : _ ∧ _ ∧ _ := by simpa using h
      rfl

theorem engine_of_pull_none {s s' : Stream σ} {notices : List Notice}
    (h : s.pull = ⟨.ok none, s', notices⟩) :
    s'.engine = s.engine ∨ s'.engine = s.engine.finish := by
  unfold pull at h
  split at h
  · obtain ⟨rfl, -⟩ : _ ∧ _ := by simpa using h
    exact Or.inl rfl
  · split at h
    · obtain ⟨rfl, -⟩ : _ ∧ _ := by simpa using h
      exact Or.inr rfl
    · simp at h
    · simp at h

/-- A character that arrives is the answer of the source. -/
theorem source_of_pull {s s' : Stream σ} {o : Except ReadError (Option CodePoint)}
    {notices : List Notice} (h : s.pull = ⟨o, s', notices⟩) :
    (s'.source = s.source ∨ s'.source = (CharSource.pull s.source).next) ∧
      ∀ c, o = .ok (some c) → (CharSource.pull s.source).outcome = .ok (some c) := by
  unfold pull at h
  split at h
  · obtain ⟨rfl, rfl, -⟩ : _ ∧ _ ∧ _ := by simpa using h
    exact ⟨Or.inl rfl, by simp⟩
  · split at h <;> next hp =>
      obtain ⟨rfl, rfl, -⟩ : _ ∧ _ ∧ _ := by simpa using h
      exact ⟨Or.inr (by rw [hp]), by simp [hp]⟩

/-! ### Reading many tokens -/

/-- Reading some size: the tokens that are handed out, whether it fails later or not. -/
def reading (s : Stream σ) (size : Value) : List Token × Reply (Stream σ) Unit :=
  match sizeOf? size with
  | some n => if n < 0 then s.drain else s.collect n.toNat
  | none => ([], ⟨.error (.notSize size.typeName), s, []⟩)

/-- **What is returned is what was handed out**, unless reading fails. -/
theorem readValue_eq_reading (s : Stream σ) (size : Value) :
    s.readValue size = (s.reading size).2.map fun _ => Token.text (s.reading size).1 := by
  rw [readValue, reading]
  cases sizeOf? size with
  | none => rfl
  | some n => rfl

end Stream

/-! ### Operations -/

/-- A change of the conventions of a text. -/
inductive Convention where
  | indentMark (v : Value)
  | dedentMark (v : Value)
  | newline (v : Value)
  | keepWhitespace (v : Value)
  | addWhitespace (vs : List Value)
  | removeWhitespace (vs : List Value)
  | rule (r : Rule)
  | paired (opening closing : Value)
  | line (opening : Value)

/-- The analysis after a change of the conventions, which may be refused. -/
def Engine.adopt (e : Engine) : Convention → Engine
  | .indentMark v => (e.setIndentMark v).toOption.getD e
  | .dedentMark v => (e.setDedentMark v).toOption.getD e
  | .newline v => (e.setNewline v).toOption.getD e
  | .keepWhitespace v => e.setKeepWhitespace v
  | .addWhitespace vs => (e.addWhitespace vs).1
  | .removeWhitespace vs => (e.removeWhitespace vs).1
  | .rule r => e.addRule r
  | .paired opening closing => (e.addPaired opening closing).toOption.getD e
  | .line opening => (e.addLine opening).toOption.getD e

/-- A convention leaves the marks as they are, since it is another one, names the same mark, or is
refused. -/
def Convention.KeepsMarks (opening closing : CodePoint) : Convention → Prop
  | .indentMark v => ∀ c, v.single .indentMark = .ok c → c = opening
  | .dedentMark v => ∀ c, v.single .dedentMark = .ok c → c = closing
  | _ => True

namespace Engine

/-- The second analysis differs from the first in its conventions at most. -/
def Alike (e e' : Engine) : Prop := ∃ l t, e' = { e with layout := l, tracker := t }

/-- The second analysis has the marks of the first. -/
def SameMarks (e e' : Engine) : Prop :=
  e'.layout.indentMark = e.layout.indentMark ∧ e'.layout.dedentMark = e.layout.dedentMark

theorem alike_refl (e : Engine) : e.Alike e := ⟨e.layout, e.tracker, rfl⟩

/-- What is refused changes nothing. -/
theorem getD_of_accepted {ε α : Type} {P : Engine → Prop} {e : Engine} {r : Except ε α}
    {f : α → Engine} (hrefused : P e) (haccepted : ∀ a, r = .ok a → P (f a)) :
    P ((r.map f).toOption.getD e) := by
  cases r with
  | error x => exact hrefused
  | ok a => exact haccepted a rfl

/-- More characters count as whitespace, and nothing else changes. -/
theorem exists_addWhitespace (e : Engine) (vs : List Value) :
    ∃ ws, (e.addWhitespace vs).1 = { e with layout := { e.layout with whitespace := ws } } := by
  induction vs generalizing e with
  | nil => exact ⟨e.layout.whitespace, rfl⟩
  | cons v vs ih =>
    rw [addWhitespace]
    split
    · exact ⟨e.layout.whitespace, rfl⟩
    · exact ih _

/-- Fewer characters count as whitespace, and nothing else changes. -/
theorem exists_removeWhitespace (e : Engine) (vs : List Value) :
    ∃ ws, (e.removeWhitespace vs).1 = { e with layout := { e.layout with whitespace := ws } } := by
  fun_induction removeWhitespace e vs with
  | case1 e => exact ⟨_, rfl⟩
  | case2 e => exact ⟨_, rfl⟩
  | case3 e => exact ⟨_, rfl⟩
  | case4 e v rest _ _ c hc ih => exact ih
  | case5 e v rest _ _ hc ih => exact ih

/-- **What a change of the conventions leaves alone.** -/
theorem alike_adopt (e : Engine) (convention : Convention) : e.Alike (e.adopt convention) := by
  cases convention with
  | indentMark v => exact getD_of_accepted e.alike_refl fun c _ => ⟨_, e.tracker, rfl⟩
  | dedentMark v => exact getD_of_accepted e.alike_refl fun c _ => ⟨_, e.tracker, rfl⟩
  | newline v => exact getD_of_accepted e.alike_refl fun c _ => ⟨_, e.tracker, rfl⟩
  | keepWhitespace v => exact ⟨_, e.tracker, rfl⟩
  | addWhitespace vs =>
    obtain ⟨ws, hws⟩ := e.exists_addWhitespace vs
    exact ⟨_, e.tracker, hws⟩
  | removeWhitespace vs =>
    obtain ⟨ws, hws⟩ := e.exists_removeWhitespace vs
    exact ⟨_, e.tracker, hws⟩
  | rule r => exact ⟨e.layout, _, rfl⟩
  | paired opening closing => exact getD_of_accepted e.alike_refl fun r _ => ⟨e.layout, _, rfl⟩
  | line opening => exact getD_of_accepted e.alike_refl fun r _ => ⟨e.layout, _, rfl⟩

theorem sameMarks_adopt {e : Engine} {convention : Convention}
    (h : convention.KeepsMarks e.layout.indentMark e.layout.dedentMark) :
    e.SameMarks (e.adopt convention) := by
  have hsame : e.SameMarks e := ⟨rfl, rfl⟩
  cases convention with
  | indentMark v => exact getD_of_accepted hsame fun c hc => ⟨h c hc, rfl⟩
  | dedentMark v => exact getD_of_accepted hsame fun c hc => ⟨rfl, h c hc⟩
  | newline v => exact getD_of_accepted hsame fun _ _ => hsame
  | keepWhitespace v => exact hsame
  | addWhitespace vs =>
    obtain ⟨ws, hws⟩ := e.exists_addWhitespace vs
    rw [adopt, hws]
    exact hsame
  | removeWhitespace vs =>
    obtain ⟨ws, hws⟩ := e.exists_removeWhitespace vs
    rw [adopt, hws]
    exact hsame
  | rule r => exact hsame
  | paired opening closing => exact getD_of_accepted hsame fun _ _ => hsame
  | line opening => exact getD_of_accepted hsame fun _ _ => hsame

end Engine

/-- What may be done to a stream. -/
inductive Operation where
  /-- The next token is asked for. -/
  | next
  /-- As many tokens are asked for as a value says. -/
  | read (size : Value)
  /-- Tokens are asked for until the end. -/
  | iterate
  /-- The stream is closed after as many tokens as a value says. -/
  | readAndClose (size : Value)
  /-- The stream is closed. -/
  | close
  /-- The source is closed, and the stream is not. -/
  | closeSource
  /-- The conventions are changed. -/
  | adopt (convention : Convention)

/-- An operation changes only conventions of some kind. -/
def Operation.Within (allowed : Convention → Prop) : Operation → Prop
  | .adopt convention => allowed convention
  | _ => True

theorem Operation.within_true (op : Operation) : op.Within fun _ => True := by
  cases op <;> exact trivial

namespace Stream

variable {σ : Type} [CharSource σ]

/-- The tokens that an operation hands out, and the stream after it. -/
def perform (s : Stream σ) : Operation → List Token × Stream σ
  | .next => (tokensOf s.next.outcome, s.next.next)
  | .read size => ((s.reading size).1, (s.readValue size).next)
  | .iterate => (s.drain.1, s.drain.2.next)
  | .readAndClose size => ((s.reading size).1, (closing (s.readValue size)).next)
  | .close => ([], s.close.next)
  | .closeSource => ([], s.closeSource.next)
  | .adopt convention => ([], { s with engine := s.engine.adopt convention })

/-- Operations one after the other. -/
def run (s : Stream σ) : List Operation → List Token × Stream σ
  | [] => ([], s)
  | op :: ops =>
    let (tokens, s') := s.perform op
    let (more, last) := s'.run ops
    (tokens ++ more, last)

/-! ### Requests one after the other -/

/-- The streams that a token is asked of, up to a number of them, to the end of the input or to
the first error. -/
def turns (s : Stream σ) : Nat → List (Stream σ)
  | 0 => []
  | n + 1 =>
    match s.next with
    | ⟨.ok (some _), s', _⟩ => s :: s'.turns n
    | _ => [s]

/-- The number of tokens that a value asks for, where there are no more than `s.remaining`. -/
def countOf (s : Stream σ) (size : Value) : Nat :=
  match sizeOf? size with
  | some n => if n < 0 then s.remaining + 1 else n.toNat
  | none => 0

/-- The streams that an operation asks for a token. -/
def turnsOf (s : Stream σ) : Operation → List (Stream σ)
  | .next => [s]
  | .read size => s.turns (s.countOf size)
  | .iterate => s.turns (s.remaining + 1)
  | .readAndClose size => s.turns (s.countOf size)
  | .close => []
  | .closeSource => []
  | .adopt _ => []

/-- The streams that some operations ask for a token. -/
def turnsIn (s : Stream σ) : List Operation → List (Stream σ)
  | [] => []
  | op :: ops => s.turnsOf op ++ (s.perform op).2.turnsIn ops

/-- The tokens that are handed out in these turns. -/
def handedOut (turns : List (Stream σ)) : List Token :=
  turns.flatMap fun s => tokensOf s.next.outcome

/-- No stream has more tokens than `remaining` says. -/
theorem drain_eq_collect (s : Stream σ) {n : Nat} (h : s.remaining < n) :
    s.drain = s.collect n := by
  induction n generalizing s with
  | zero => omega
  | succ n ih =>
    rw [Stream.drain, collect]
    split
    · next hnext => rw [hnext]
    · next hnext => rw [hnext]
    · next t s' notices hnext =>
      have hlt : s'.remaining < s.remaining := by
        have := s.remaining_next_lt t (by rw [hnext])
        rwa [hnext] at this
      rw [hnext]
      simp only [ih s' (by omega)]

theorem handedOut_turns (s : Stream σ) (n : Nat) : handedOut (s.turns n) = (s.collect n).1 := by
  induction n generalizing s with
  | zero => rfl
  | succ n ih =>
    rw [turns, collect]
    split
    · next t s' notices hnext =>
      rw [hnext]
      simp only [handedOut, List.flatMap_cons, hnext, tokensOf_some]
      exact congrArg (t :: ·) (ih s')
    · next hother =>
      rcases hnext : s.next with ⟨x | _ | t, s', notices⟩
      · simp [handedOut, hnext]
      · simp [handedOut, hnext]
      · exact absurd hnext (hother t s' notices)

theorem reading_eq_collect (s : Stream σ) (size : Value) :
    (s.reading size).1 = (s.collect (s.countOf size)).1 ∧
      (s.readValue size).next = (s.collect (s.countOf size)).2.next := by
  rw [readValue_eq_reading, Reply.next_map, reading, countOf]
  cases sizeOf? size with
  | none => exact ⟨rfl, rfl⟩
  | some n =>
    by_cases hn : n < 0
    · simp only [if_pos hn, s.drain_eq_collect (Nat.lt_succ_self _), and_self]
    · simp only [if_neg hn, and_self]

theorem handedOut_turnsOf (s : Stream σ) (op : Operation) :
    handedOut (s.turnsOf op) = (s.perform op).1 := by
  have hreading (size : Value) : handedOut (s.turns (s.countOf size)) = (s.reading size).1 := by
    rw [handedOut_turns, (s.reading_eq_collect size).1]
  cases op with
  | next => simp [turnsOf, handedOut, perform]
  | read size => exact hreading size
  | iterate =>
    rw [turnsOf, handedOut_turns, ← s.drain_eq_collect (Nat.lt_succ_self _)]
    rfl
  | readAndClose size => exact hreading size
  | close => rfl
  | closeSource => rfl
  | adopt convention => rfl

/-- **The tokens of a run are those of its turns.** -/
theorem handedOut_turnsIn (s : Stream σ) (ops : List Operation) :
    handedOut (s.turnsIn ops) = (s.run ops).1 := by
  induction ops generalizing s with
  | nil => rfl
  | cons op ops ih =>
    rw [turnsIn, handedOut, List.flatMap_append]
    exact congrArg₂ (· ++ ·) (s.handedOut_turnsOf op) (ih _)

/-! ### What holds at all times -/

/-- What holds of a stream and the turns before it, and goes on to hold when a token is asked for,
when the source is closed, and when conventions of some kind are changed. -/
structure Journal (allowed : Convention → Prop) (P : List (Stream σ) → Stream σ → Prop) :
    Prop where
  next : ∀ {past s}, P past s → P (past ++ [s]) s.next.next
  close : ∀ {past s} (b : Bool), P past s →
    P past { s with closed := b, source := (CharSource.close s.source).next }
  adopt : ∀ {past s convention}, allowed convention → P past s →
    P past { s with engine := s.engine.adopt convention }

namespace Journal

variable {allowed : Convention → Prop} {P : List (Stream σ) → Stream σ → Prop}
  {past : List (Stream σ)} {s : Stream σ}

theorem collect (hP : Journal allowed P) (h : P past s) (n : Nat) :
    P (past ++ s.turns n) (s.collect n).2.next := by
  induction n generalizing past s with
  | zero => simpa [turns, Stream.collect] using h
  | succ n ih =>
    have hstep := hP.next h
    rw [turns, Stream.collect]
    rcases hnext : s.next with ⟨x | _ | t, s', notices⟩
    · simpa [hnext] using hstep
    · simpa [hnext] using hstep
    · rw [hnext] at hstep
      simpa using ih hstep

theorem reading (hP : Journal allowed P) (h : P past s) (size : Value) :
    P (past ++ s.turns (s.countOf size)) (s.readValue size).next := by
  rw [(s.reading_eq_collect size).2]
  exact hP.collect h _

theorem closing (hP : Journal allowed P) (h : P past s) : P past s.close.next := by
  rw [Stream.close]
  split
  · exact h
  · exact hP.close true h

theorem perform (hP : Journal allowed P) (h : P past s) {op : Operation}
    (hop : op.Within allowed) : P (past ++ s.turnsOf op) (s.perform op).2 := by
  cases op with
  | next => exact hP.next h
  | read size => exact hP.reading h size
  | iterate =>
    rw [turnsOf, Stream.perform, s.drain_eq_collect (Nat.lt_succ_self _)]
    exact hP.collect h _
  | readAndClose size => exact hP.closing (hP.reading h size)
  | close => simpa [turnsOf, Stream.perform] using hP.closing h
  | closeSource => simpa [turnsOf, Stream.perform, Stream.closeSource] using hP.close s.closed h
  | adopt convention => simpa [turnsOf, Stream.perform] using hP.adopt hop h

/-- **What one step preserves holds at all times.** -/
theorem run (hP : Journal allowed P) (h : P past s) {ops : List Operation}
    (hops : ∀ op ∈ ops, op.Within allowed) : P (past ++ s.turnsIn ops) (s.run ops).2 := by
  induction ops generalizing past s with
  | nil => simpa [turnsIn, Stream.run] using h
  | cons op ops ih =>
    have hstep := hP.perform h (hops op List.mem_cons_self)
    have hrest := ih hstep fun op' hop' => hops op' (List.mem_cons_of_mem _ hop')
    rwa [List.append_assoc] at hrest

end Journal

/-- What holds of a stream and the tokens handed out before, and goes on to hold when a token is
asked for, when the source is closed, and when conventions of some kind are changed. -/
structure Invariant (allowed : Convention → Prop) (P : List Token → Stream σ → Prop) : Prop where
  next : ∀ {seen s}, P seen s → P (seen ++ tokensOf s.next.outcome) s.next.next
  close : ∀ {seen s} (b : Bool), P seen s →
    P seen { s with closed := b, source := (CharSource.close s.source).next }
  adopt : ∀ {seen s convention}, allowed convention → P seen s →
    P seen { s with engine := s.engine.adopt convention }

namespace Invariant

variable {allowed : Convention → Prop} {P : List Token → Stream σ → Prop} {seen : List Token}
  {s : Stream σ}

theorem journal (hP : Invariant allowed P) (seen : List Token) :
    Journal allowed fun past s => P (seen ++ handedOut past) s where
  next h := by simpa [handedOut] using hP.next h
  close b h := hP.close b h
  adopt hallowed h := hP.adopt hallowed h

/-- What one step preserves holds at all times. -/
theorem run (hP : Invariant allowed P) (h : P seen s) {ops : List Operation}
    (hops : ∀ op ∈ ops, op.Within allowed) : P (seen ++ (s.run ops).1) (s.run ops).2 := by
  have hstart : P (seen ++ handedOut ([] : List (Stream σ))) s := by simpa [handedOut] using h
  have hrun : P (seen ++ handedOut ([] ++ s.turnsIn ops)) (s.run ops).2 :=
    (hP.journal seen).run hstart hops
  rwa [List.nil_append, handedOut_turnsIn] at hrun

end Invariant

end Stream

end Offside
