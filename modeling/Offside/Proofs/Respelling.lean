import Offside.Proofs.Outcomes
import Offside.Proofs.Marks

/-!
# Other marks

Which characters the marks are does not matter for the analysis.  Two streams that differ in their
marks only take the same answers from the source, decide the same, and hand out the same tokens with
their marks spelled in one way or the other.

One thing does depend on the marks: a mark may be the newline, and when it has been handed out a
line seems to start.  But a mark is never the last that is queued before the source is asked again.
What follows it is a character of the text or, when the input has ended, nothing that is looked at.

## Main definitions

* `Token.respell`, `Engine.respell` — other marks in the place of the marks.
* `Engine.SameAnalysis` — two analyses have found the same.
* `Engine.Respelled` — two analyses differ in their marks only.

## Main results

* `Engine.Hears.respell` — with other marks the same is heard.
* `Stream.after_respelled` — streams that differ in their marks go on to do so.
-/

namespace Offside

/-! ### Marks -/

/-- The token with its mark spelled anew. -/
def Token.respell (opening closing : CodePoint) (t : Token) : Token :=
  match t.role with
  | .content => t
  | .indent => ⟨.indent, opening⟩
  | .dedent => ⟨.dedent, closing⟩

variable {a b c : CodePoint} {n : Nat} {name file : Option String}

@[simp] theorem Token.respell_content (a b c : CodePoint) :
    (content c).respell a b = content c := rfl

/-- Other marks in a layout. -/
def Layout.respell (opening closing : CodePoint) (l : Layout) : Layout :=
  { l with indentMark := opening, dedentMark := closing }

theorem Layout.marks_respell (l : Layout) (before after : Nat) :
    (l.respell a b).marks before after = (l.marks before after).map (Token.respell a b) := by
  unfold marks
  split
  · rfl
  · rw [List.map_replicate]
    rfl

namespace Engine

/-- Two analyses have found the same. -/
structure SameAnalysis (e e' : Engine) : Prop where
  stack_eq : e'.stack = e.stack
  tracker_eq : e'.tracker = e.tracker
  exhausted_eq : e'.exhausted = e.exhausted
  line_eq : e'.line = e.line
  column_eq : e'.column = e.column
  indents_eq : e'.indents = e.indents
  dedents_eq : e'.dedents = e.dedents

/-- The analysis with other marks, also for what is queued. -/
def respell (opening closing : CodePoint) (e : Engine) : Engine :=
  { e with
    layout := e.layout.respell opening closing
    queue := e.queue.map (Option.map (Token.respell opening closing)) }

variable {e e' : Engine}

theorem respell_arrive (e : Engine) (c : CodePoint) :
    (e.respell a b).arrive c = (e.arrive c).respell a b := by
  unfold arrive
  show (if c = e.layout.newline then _ else _) = _
  split <;> rfl

theorem respell_enqueue (e : Engine) (entry : Option Token) :
    (e.respell a b).enqueue (entry.map (Token.respell a b)) =
      (e.enqueue entry).respell a b := by
  simp [enqueue, respell]

theorem respell_holdBack (e : Engine) (c : CodePoint) :
    (e.respell a b).holdBack c = (e.holdBack c).respell a b := by
  unfold holdBack
  rw [respell_arrive]
  exact respell_enqueue (e.arrive c) (some (.content c))

theorem respell_place (e : Engine) (marks : List Token) (c : CodePoint) :
    (e.respell a b).place (marks.map (Token.respell a b)) c =
      (e.place marks c).respell a b := by
  have hkeep : (e.respell a b).layout.keepWhitespace = e.layout.keepWhitespace := rfl
  unfold place
  rw [hkeep]
  cases e.layout.keepWhitespace with
  | false => simp [respell, Function.comp_def]
  | true => simp [respell, Function.comp_def]

/-- Characters that are held back are no marks. -/
theorem lead_respell {lead : List CodePoint}
    (hq : e.queue = (lead.map Token.content).map some) :
    (e.respell a b).lead = e.lead := by
  have hqueue : (e.respell a b).queue = e.queue := by
    show e.queue.map _ = e.queue
    rw [hq]
    simp [Function.comp_def]
  rw [Engine.lead, due, hqueue]
  rfl

/-- **With other marks the same is heard.** -/
theorem Hears.respell {answers : List (Except ReadError (Option CodePoint))}
    {error : Option ReadError} (h : Hears file e answers error e') (lead : List CodePoint)
    (hq : e.queue = (lead.map Token.content).map some) (a b : CodePoint) :
    Hears file (e.respell a b) answers error (e'.respell a b) := by
  -- by what is heard: at every step the same happens to the engine with the other marks
  induction h generalizing lead with
  | @ended e hended =>
    rw [← respell_enqueue]
    exact .ended hended
  | @fail e hmore x => exact .fail (e := e.respell a b) hmore x
  | @stop e hmore =>
    rw [← respell_enqueue]
    exact .stop hmore
  | @hold e e' c answers error hmore hc hrest ih =>
    apply Hears.hold (e := e.respell a b) hmore hc
    rw [respell_holdBack]
    apply ih (lead ++ [c])
    simp [hq]
  | @pass e c hmore hc =>
    rw [← respell_enqueue]
    have harrive : ((e.respell a b).arrive c).observe c = ((e.arrive c).observe c).respell a b := by
      rw [respell_arrive]
      rfl
    have hpass : Hears file (e.respell a b) [.ok (some c)] none
        ((((e.respell a b).arrive c).observe c).enqueue (some (.content c))) := .pass hmore hc
    rwa [harrive] at hpass
  | @level e c stack hmore hc hstack =>
    -- no mark is queued yet, so the same whitespace is compared with the levels
    rw [← respell_place, ← Layout.marks_respell]
    have hstack' : (e.respell a b).stack.advance? (e.respell a b).lead = some stack := by
      rwa [lead_respell hq]
    have hlevel : Hears file (e.respell a b) [.ok (some c)] none
        ((((e.respell a b).arrive c).relevel stack).place
          ((e.respell a b).layout.marks (e.respell a b).depth stack.depth) c) :=
      .level hmore ⟨hc.escapes_eq, hc.lineStart_eq, hc.notMem, hc.ne_newline⟩ hstack'
    rwa [respell_arrive] at hlevel
  | @misfit e c hmore hc hstack =>
    rw [← respell_arrive]
    have hstack' : (e.respell a b).stack.advance? (e.respell a b).lead = none := by
      rwa [lead_respell hq]
    have hmisfit : Hears file (e.respell a b) [.ok (some c)]
        (some (.mismatch (((e.respell a b).arrive c).mismatch file (e.respell a b).lead)))
        ((e.respell a b).arrive c) :=
      .misfit hmore ⟨hc.escapes_eq, hc.lineStart_eq, hc.notMem, hc.ne_newline⟩ hstack'
    -- the mismatch names the run and the levels, which do not depend on the marks
    rw [lead_respell hq, respell_arrive] at hmisfit
    rw [respell_arrive]
    exact hmisfit

/-- Two analyses differ in their marks only, and in whether a line starts as long as something else
is to be handed out before that is asked. -/
structure Respelled (opening closing : CodePoint) (e e' : Engine) : Prop where
  eq_respell : e' = { e.respell opening closing with lineStart := e'.lineStart }
  lineStart_eq : e.queue = [] → e.exhausted = false → e'.lineStart = e.lineStart

theorem respelled_respell (a b : CodePoint) (e : Engine) : Respelled a b e (e.respell a b) :=
  ⟨rfl, fun _ _ => rfl⟩

theorem Respelled.sameAnalysis (h : Respelled a b e e') : SameAnalysis e e' := by
  rw [h.eq_respell]
  exact ⟨rfl, rfl, rfl, rfl, rfl, rfl, rfl⟩

theorem Respelled.queue_eq (h : Respelled a b e e') :
    e'.queue = e.queue.map (Option.map (Token.respell a b)) := by
  rw [h.eq_respell]
  rfl

end Engine

namespace Stream

open Engine CharSource

variable {σ : Type} {s : Stream σ} {e' : Engine}

/-- What is handed out is the same with other marks. -/
theorem handOut_respelled (h : Respelled a b s.engine e') (hp : s.engine.Pending)
    (hne : s.engine.queue ≠ []) :
    ({ s with engine := e' } : Stream σ).handOut.outcome =
        s.handOut.outcome.map (Option.map (Token.respell a b)) ∧
      ∃ e₁, ({ s with engine := e' } : Stream σ).handOut.next =
          { s.handOut.next with engine := e₁ } ∧
        Respelled a b s.handOut.next.engine e₁ := by
  let t : Stream σ := { s with engine := e' }
  have hqueue : t.engine.queue = s.engine.queue.map (Option.map (Token.respell a b)) := h.queue_eq
  have hdepth : t.engine.depth = s.engine.depth := congrArg Stack.depth h.sameAnalysis.stack_eq
  have heq := h.eq_respell
  show t.handOut.outcome = _ ∧ ∃ e₁, t.handOut.next = _ ∧ _
  rcases handOut_cases hp hne with ⟨x, rest, hq, hs, hrest⟩ | ⟨hq, hended, hzero, hs⟩ |
    ⟨n, hq, hended, hsucc, hs⟩
  · -- what stands first in the queue stands first in the other, respelled
    rw [hq] at hqueue
    have ht : t.handOut = ⟨.ok (some (x.respell a b)), t.handed (x.respell a b)
        (rest.map (Option.map (Token.respell a b))), []⟩ := handOut_of_queue_eq_cons hqueue
    rw [hs, ht]
    refine ⟨rfl, _, rfl, ?_, ?_⟩
    · show ({ e' with queue := _, lineStart := _ } : Engine) = _
      rw [heq]
      rfl
    · intro hnil hmore
      -- the last that is queued while the input goes on is a character of the text
      obtain rfl : rest = [] := hnil
      have hmore' : s.engine.exhausted = false := hmore
      have hlayout : e'.layout.newline = s.engine.layout.newline := by
        rw [heq]
        rfl
      obtain ⟨d, rfl⟩ : ∃ d, x = .content d := by
        cases hp with
        | empty hempty => simp [hempty] at hq
        | line tokens d hline =>
          rw [hline, ← List.concat_eq_append] at hq
          have hlength := congrArg List.length hq
          obtain rfl : tokens = [] := by simpa using hlength
          exact ⟨d, by simpa using hq.symm⟩
        | ending tokens hended => simp [hended] at hmore'
      show decide (d = e'.layout.newline) = decide (d = s.engine.layout.newline)
      rw [hlayout]
  · rw [hq] at hqueue
    have ht : t.handOut = ⟨.ok none, t.shift [], []⟩ :=
      handOut_of_depth_eq_zero hqueue (hdepth.trans hzero)
    rw [hs, ht]
    refine ⟨rfl, _, rfl, ?_, ?_⟩
    · show ({ e' with queue := _ } : Engine) = _
      rw [heq]
      rfl
    · intro _ hmore
      have hmore' : s.engine.exhausted = false := hmore
      simp [hended] at hmore'
  · rw [hq] at hqueue
    have ht : t.handOut = ⟨.ok (some t.engine.dedentToken), t.flushed n, [.flush (n + 1)]⟩ :=
      handOut_of_depth_eq_succ hqueue (hdepth.trans hsucc)
    -- the marks that close what is open are spelled like the others
    have hmark : t.engine.dedentToken = s.engine.dedentToken.respell a b := by
      show e'.dedentToken = _
      rw [heq]
      rfl
    rw [hs, ht, hmark]
    refine ⟨rfl, _, rfl, ?_, ?_⟩
    · show ({ e' with stack := _, queue := List.replicate n (some t.engine.dedentToken) ++ [none],
                      dedents := e'.dedents + _, lineStart := _ } : Engine) = _
      rw [hmark, h.sameAnalysis.dedents_eq, heq]
      simp [respell, flushed]
    · intro _ hmore
      have hmore' : s.engine.exhausted = false := hmore
      simp [hended] at hmore'

variable [CharSource σ]

/-- A request is answered the same with other marks. -/
theorem next_respelled (hopen : s.closed = false) (hp : s.engine.Pending)
    (h : Respelled a b s.engine e') :
    ({ s with engine := e' } : Stream σ).next.outcome =
        s.next.outcome.map (Option.map (Token.respell a b)) ∧
      ∃ e₁, ({ s with engine := e' } : Stream σ).next.next = { s.next.next with engine := e₁ } ∧
        Respelled a b s.next.next.engine e₁ := by
  let t : Stream σ := { s with engine := e' }
  show t.next.outcome = _ ∧ ∃ e₁, t.next.next = _ ∧ _
  rcases next_hears hopen with ⟨hne, hs⟩ | ⟨hq, k, error, e, told, hhears, hs⟩
  · -- something is queued, in one stream as in the other
    have hne' : t.engine.queue ≠ [] := by
      show e'.queue ≠ []
      rw [h.queue_eq]
      simpa using hne
    have ht : t.next = t.handOut := next_of_queue_ne_nil hopen hne'
    rw [hs, ht]
    exact handOut_respelled h hp hne
  · have hq' : t.engine.queue = [] := by
      show e'.queue = []
      rw [h.queue_eq, hq]
      rfl
    -- whether a line starts matters as long as the source is asked only
    obtain ⟨e₁, hhears', hrespelled⟩ : ∃ e₁,
        Hears s.name e' (answers s.source k) error e₁ ∧ Respelled a b e e₁ := by
      cases hmore : s.engine.exhausted with
      | false =>
        have heq : e' = s.engine.respell a b := by
          rw [h.eq_respell, h.lineStart_eq hq hmore]
          rfl
        rw [heq]
        exact ⟨_, hhears.respell [] hq a b, respelled_respell a b e⟩
      | true =>
        -- at the end of the input nothing is asked, whatever is known of the line
        have hended : e'.exhausted = true := h.sameAnalysis.exhausted_eq.trans hmore
        obtain ⟨hnil, -⟩ := hhears.exhausted_of_exhausted hmore
        rw [hnil] at hhears ⊢
        cases hhears with
        | ended =>
          refine ⟨_, .ended hended, ?_, ?_⟩
          · show ({ e' with queue := _ } : Engine) = _
            rw [h.eq_respell]
            simp [enqueue, respell]
          · intro hnil'
            simp [enqueue] at hnil'
    obtain ⟨told', ht⟩ := next_of_hears (s := t) hopen hq' hhears'
    rw [hs, ht]
    cases error with
    | some x => exact ⟨rfl, e₁, rfl, hrespelled⟩
    | none =>
      have hpending : e.Pending := hhears.pending [] hq
      exact handOut_respelled (s := s.fed k e) hrespelled hpending hhears.queue_ne_nil

/-- **Streams that differ in their marks go on to do so.** -/
theorem after_respelled (source : σ) (name : Option String) (l : Layout) (rules : List Rule)
    (a b : CodePoint) (n : Nat) :
    ∃ e', (start source name (l.respell a b) rules).after n =
        { (start source name l rules).after n with engine := e' } ∧
      Respelled a b ((start source name l rules).after n).engine e' ∧
      ((start source name l rules).after n).engine.Pending := by
  induction n with
  | zero => exact ⟨_, rfl, ⟨rfl, fun _ _ => rfl⟩, .empty rfl⟩
  | succ n ih =>
    obtain ⟨e', heq, hrespelled, hpending⟩ := ih
    have hopen : ((start source name l rules).after n).closed = false := (name_after rfl n).2
    obtain ⟨-, e₁, hnext, hrespelled'⟩ := next_respelled hopen hpending hrespelled
    refine ⟨e₁, ?_, ?_, ?_⟩
    · rw [after_succ_last, heq, hnext, after_succ_last]
    · rw [after_succ_last]
      exact hrespelled'
    · rw [after_succ_last]
      exact pending_next hopen hpending

end Stream

end Offside
