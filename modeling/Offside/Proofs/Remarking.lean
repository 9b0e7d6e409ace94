import Offside.Proofs.Accounting
import Offside.Proofs.Ending

/-!
# Marks that are changed

The marks may be changed at any time.  A mark is written when it is queued, and it is handed out as
it was written, so a change does not reach the marks that are queued already.  The mark of an
opening block is handed out by the request that queues it, so it is never late; but if a line, or
the end of the input, closes several blocks, the marks of all but the first wait in the queue.

Whoever changes the marks in between is handed the rest of them as they were before.  These come
first, and everything behind them is written as the change says.  If no mark is queued, the change
shows from the next request onwards.

## Main definitions

* `Token.WrittenAs` — a token that is a mark has a certain character.
* `Stream.remarked` — a stream with other marks.
* `Stream.Remarks` — what is handed out and queued is late, or written with the new marks.

## Main results

* `Stream.invariant_remarks` — this is so until the marks are changed again.
* `Stream.marks_after_change` — **only queued marks of closing blocks are late**.
* `Stream.late_mark` — one of them is.
-/

namespace Offside

/-- A mark has the character for its kind. -/
def Token.WrittenAs (opening closing : CodePoint) (t : Token) : Prop :=
  (t.role = .indent → t.char = opening) ∧ (t.role = .dedent → t.char = closing)

theorem Token.writtenAs_content (opening closing c : CodePoint) :
    (Token.content c).WrittenAs opening closing := by
  simp [WrittenAs]

theorem Layout.writtenAs_of_mem_marks {l : Layout} {before after : Nat} {t : Token}
    (h : t ∈ l.marks before after) : t.WrittenAs l.indentMark l.dedentMark := by
  rw [marks] at h
  split at h
  · rw [List.mem_singleton.1 h]
    simp [Token.WrittenAs]
  · rw [List.eq_of_mem_replicate h]
    simp [Token.WrittenAs]

theorem Engine.writtenAs_dedentToken (e : Engine) :
    e.dedentToken.WrittenAs e.layout.indentMark e.layout.dedentMark := by
  simp [Token.WrittenAs, dedentToken]

namespace Stream

open Engine CharSource

variable {σ : Type}

/-- The stream when its marks have been changed. -/
def remarked (s : Stream σ) (opening closing : CodePoint) : Stream σ :=
  let first := s.engine.adopt (.indentMark (.text [opening]))
  { s with engine := first.adopt (.dedentMark (.text [closing])) }

theorem engine_remarked (s : Stream σ) (opening closing : CodePoint) :
    (s.remarked opening closing).engine =
      { s.engine with layout :=
        { s.engine.layout with indentMark := opening, dedentMark := closing } } := by
  simp [remarked, adopt, setIndentMark, setDedentMark, Value.single_text_singleton, Except.map,
    Except.toOption]

/-- What has been handed out since the marks were changed, and what is queued: first what was queued
then, and behind it marks as they are now. -/
structure Remarks (old : List Token) (opening closing : CodePoint) (seen : List Token)
    (e : Engine) : Prop where
  indentMark_eq : e.layout.indentMark = opening
  dedentMark_eq : e.layout.dedentMark = closing
  pending : e.Pending
  split : ∃ fresh, seen ++ e.due = old ++ fresh ∧ ∀ t ∈ fresh, t.WrittenAs opening closing

variable {old seen : List Token} {opening closing : CodePoint} {s : Stream σ}

theorem remarks_remarked (h : s.engine.Pending) (opening closing : CodePoint) :
    Remarks s.engine.due opening closing [] (s.remarked opening closing).engine := by
  rw [engine_remarked]
  exact ⟨rfl, rfl, h.alike ⟨_, s.engine.tracker, rfl⟩, [], by simp [due], by simp⟩

theorem Remarks.handOut (h : Remarks old opening closing seen s.engine)
    (hne : s.engine.queue ≠ []) :
    Remarks old opening closing (seen ++ tokensOf s.handOut.outcome) s.handOut.next.engine := by
  obtain ⟨fresh, hsplit, hfresh⟩ := h.split
  obtain ⟨n, hdue⟩ := due_handOut h.pending hne
  refine ⟨?_, ?_, pending_handOut h.pending hne, fresh ++ List.replicate n s.engine.dedentToken,
    ?_, ?_⟩
  · rw [layout_handOut, h.indentMark_eq]
  · rw [layout_handOut, h.dedentMark_eq]
  · rw [List.append_assoc, hdue, ← List.append_assoc, hsplit, List.append_assoc]
  · intro t ht
    rcases List.mem_append.1 ht with ht | ht
    · exact hfresh t ht
    · rw [List.eq_of_mem_replicate ht, ← h.indentMark_eq, ← h.dedentMark_eq]
      exact s.engine.writtenAs_dedentToken

/-- What is heard is written with the marks as they are now. -/
theorem Remarks.hears {e e' : Engine} {file : Option String} {error : Option ReadError}
    {answers : List (Except ReadError (Option CodePoint))} (h : Remarks old opening closing seen e)
    (hq : e.queue = []) (hhears : Hears file e answers error e') :
    Remarks old opening closing seen e' := by
  obtain ⟨fresh, hsplit, hfresh⟩ := h.split
  rw [due_of_queue_nil hq, List.append_nil] at hsplit
  have hdue : ∀ t ∈ e'.due, t.WrittenAs opening closing := by
    refine hhears.forall_due (fun c _ => Token.writtenAs_content opening closing c) ?_ ?_
    · intro before after t ht
      rw [← h.indentMark_eq, ← h.dedentMark_eq]
      exact Layout.writtenAs_of_mem_marks ht
    · simp [due_of_queue_nil hq]
  refine ⟨?_, ?_, hhears.pending [] hq, fresh ++ e'.due, ?_, ?_⟩
  · rw [hhears.layout_eq, h.indentMark_eq]
  · rw [hhears.layout_eq, h.dedentMark_eq]
  · rw [hsplit, List.append_assoc]
  · intro t ht
    exact (List.mem_append.1 ht).elim (hfresh t) (hdue t)

variable [CharSource σ]

/-- **What was queued when the marks were changed is handed out first**, and what comes behind it is
written with the new marks until they are changed again. -/
theorem invariant_remarks (old : List Token) (opening closing : CodePoint) :
    Invariant (Convention.KeepsMarks opening closing)
      fun seen (s : Stream σ) => Remarks old opening closing seen s.engine where
  next {seen s} h := by
    cases hclosed : s.closed with
    | true =>
      rw [next_of_closed hclosed]
      simpa using h
    | false =>
      rcases next_hears hclosed with ⟨hne, hs⟩ | ⟨hq, k, error, e, told, hhears, hs⟩
      · rw [hs]
        exact h.handOut hne
      · -- nothing old is queued any more, so what is heard is written with the new marks
        have hheard : Remarks old opening closing seen e := h.hears hq hhears
        rw [hs]
        cases error with
        | some x =>
          show Remarks old opening closing (seen ++ []) e
          rwa [List.append_nil]
        | none => exact hheard.handOut (s := s.fed k e) hhears.queue_ne_nil
  close b h := h
  adopt {seen s convention} hallowed h := by
    rw [← h.indentMark_eq, ← h.dedentMark_eq] at hallowed
    obtain ⟨hindent, hdedent⟩ := sameMarks_adopt hallowed
    have halike := alike_adopt s.engine convention
    have hdue : (s.engine.adopt convention).due = s.engine.due := by
      obtain ⟨l, t, hengine⟩ := halike
      rw [hengine]
      rfl
    refine ⟨hindent.trans h.indentMark_eq, hdedent.trans h.dedentMark_eq,
      h.pending.alike halike, ?_⟩
    rw [hdue]
    exact h.split

/-- Between two requests marks of closing blocks are queued, and characters behind them. -/
theorem due_run (source : σ) (name : Option String) (l : Layout) (rules : List Rule)
    (ops : List Operation) :
    ∃ marks chars, ((start source name l rules).run ops).2.engine.due = marks ++ chars ∧
      (∀ t ∈ marks, t.role = .dedent) ∧ ∀ t ∈ chars, t.role = .content := by
  have haccount : Account ([] ++ ((start source name l rules).run ops).1)
      ((start source name l rules).run ops).2.engine :=
    invariant_account.run (account_fresh l rules) fun op _ => op.within_true
  obtain ⟨marks, chars, ⟨⟨ending, hending, hqueue⟩, hchars⟩, hmarks, -⟩ := haccount.backlog
  refine ⟨marks, chars, ?_, hmarks, hchars⟩
  rw [due, hqueue]
  rcases hending with rfl | rfl
  · simp [List.reduceOption]
  · simp [List.reduceOption]

/-- **Only queued marks of closing blocks are late.**  When the marks of a stream are changed, at
any time, some marks of closing blocks may be queued, and nothing but characters behind them.  What
is handed out from then on is what is queued, as it stands, and behind it all marks are the new
ones, until they are changed again.  So marks of opening blocks are never late, and if no mark is
queued, none is. -/
theorem marks_after_change (source : σ) (name : Option String) (l : Layout) (rules : List Rule)
    (ops more : List Operation) (opening closing : CodePoint)
    (hmore : ∀ op ∈ more, op.Within (Convention.KeepsMarks opening closing)) :
    let s := ((start source name l rules).run ops).2
    let tokens := ((s.remarked opening closing).run more).1
    (∃ marks chars late fresh, s.engine.due = marks ++ chars ∧
      (∀ t ∈ marks, t.role = .dedent) ∧ (∀ t ∈ chars, t.role = .content) ∧
      tokens = late ++ fresh ∧ late <+: marks ++ chars ∧ (fresh ≠ [] → late = marks ++ chars) ∧
      ∀ t ∈ fresh, t.WrittenAs opening closing) ∧
      (∀ t ∈ tokens, t.role = .indent → t.char = opening) ∧
      ((∀ t ∈ s.engine.due, t.role ≠ .dedent) →
        ∀ t ∈ tokens, t.role = .dedent → t.char = closing) := by
  intro s tokens
  obtain ⟨marks, chars, hdue, hmarks, hchars⟩ := due_run source name l rules ops
  have hpending : s.engine.Pending := pending_run source name l rules ops
  obtain ⟨fresh, hsplit, hfresh⟩ := ((invariant_remarks s.engine.due opening closing).run
    (remarks_remarked hpending opening closing) hmore).split
  -- what has been handed out ends among what was queued, or behind it
  obtain ⟨late, behind, htokens, hlate, hbehind, hwritten⟩ : ∃ late behind,
      tokens = late ++ behind ∧ late <+: marks ++ chars ∧ (behind ≠ [] → late = marks ++ chars) ∧
        ∀ t ∈ behind, t.WrittenAs opening closing := by
    rw [List.nil_append, hdue] at hsplit
    rcases List.append_eq_append_iff.1 hsplit with ⟨rest, hold, -⟩ | ⟨behind, htokens, hrest⟩
    · exact ⟨tokens, [], by simp, ⟨rest, hold.symm⟩, by simp, by simp⟩
    · exact ⟨marks ++ chars, behind, htokens, List.prefix_refl _, fun _ => rfl,
        fun t ht => hfresh t (by rw [hrest]; exact List.mem_append_left _ ht)⟩
  refine ⟨⟨marks, chars, late, behind, hdue, hmarks, hchars, htokens, hlate, hbehind, hwritten⟩,
    ?_, ?_⟩
  · intro t ht hrole
    rw [htokens] at ht
    rcases List.mem_append.1 ht with ht | ht
    · -- what is late is no mark of an opening block
      rcases List.mem_append.1 (hlate.subset ht) with hmem | hmem
      · simp [hmarks t hmem] at hrole
      · simp [hchars t hmem] at hrole
    · exact (hwritten t ht).1 hrole
  · intro hnone t ht hrole
    rw [htokens] at ht
    rcases List.mem_append.1 ht with ht | ht
    · -- what is late was queued when the marks were changed
      refine absurd hrole (hnone t ?_)
      rw [hdue]
      exact hlate.subset ht
    · exact (hwritten t ht).2 hrole

/-- Two blocks that end with the same line. -/
def steppedText : TextSource := { rest := " a\n  b\nc".codePoints }

/-- Before the line that closes the blocks no mark is queued, and both marks of it are new. -/
theorem marks_after_change_steppedText :
    let s := ((start steppedText none {} []).run [.read (.int 6)]).2
    let more : List Operation := [.read (.int 2)]
    let tokens := ((s.remarked '+' '-').run more).1
    (∀ op ∈ more, op.Within (Convention.KeepsMarks '+' '-')) ∧
      (∀ t ∈ s.engine.due, t.role ≠ .dedent) ∧
      tokens.map Token.role = [.dedent, .dedent] ∧
      (∀ t ∈ tokens, t.role = .indent → t.char = '+') ∧
      ∀ t ∈ tokens, t.role = .dedent → t.char = '-' := by
  intro s more tokens
  have hmore : ∀ op ∈ more, op.Within (Convention.KeepsMarks '+' '-') := by
    simp [more, Operation.Within]
  have hnone : ∀ t ∈ s.engine.due, t.role ≠ .dedent := by decide +kernel
  obtain ⟨-, hopening, hclosing⟩ :=
    marks_after_change steppedText none {} [] [.read (.int 6)] more '+' '-' hmore
  exact ⟨hmore, hnone, by decide +kernel, hopening, hclosing hnone⟩

/-- Between the two marks of that line the marks are changed, and the second one is late, although
no character of the text is a mark of either kind. -/
theorem late_mark :
    let s := ((start steppedText none {} []).run [.read (.int 7)]).2
    let tokens := ((s.remarked '+' '-').run [.next]).1
    (∀ c ∈ "><+-".codePoints, Avoids steppedText c) ∧ s.closed = false ∧
      tokens = [⟨.dedent, '<'⟩] ∧ ¬ ∀ t ∈ tokens, t.role = .dedent → t.char = '-' := by
  intro s tokens
  have havoids : ∀ c ∈ "><+-".codePoints, c ∉ steppedText.rest := by
    decide
  have hclosed : s.closed = false := by decide +kernel
  have hqueue : s.engine.queue = [some ⟨.dedent, '<'⟩, some (.content 'c')] := by decide +kernel
  have hqueue' : (s.remarked '+' '-').engine.queue = s.engine.queue := by rw [engine_remarked]
  have htokens : tokens = [⟨.dedent, '<'⟩] := by
    have hnext := next_of_queue_eq_cons (s := s.remarked '+' '-') hclosed (hqueue'.trans hqueue)
    show ((s.remarked '+' '-').run [.next]).1 = _
    simp [run, perform, hnext]
  refine ⟨fun c hc => avoids_text (havoids c hc), hclosed, htokens, ?_⟩
  rw [htokens]
  decide

end Stream

end Offside
