import Offside.Proofs.Delivery
import Offside.Proofs.Ending
import Offside.Proofs.Recording

/-!
# How far a stream reads ahead

A stream may have to read the whitespace of a line, and one character more, before it knows what to
hand out.  It does not read further.  What was read and has not been handed out yet waits in the
queue, in order, unless it was whitespace that marks have taken the place of, and all of it belongs
to the line that is being handed out.

So if the newline is no whitespace, the newline of a line is handed out before anything behind it is
read.  What a stream hands out up to there cannot depend on what follows, and a reader who stops
there has taken from the source exactly the lines that were handed out.

## Main definitions

* `Layout.Thinned` — a text without some of the whitespace that its lines start with.
* `Engine.Ahead` — what was read is settled or queued.
* `Stream.Objects` — a request fails because of a line.
* `Convention.KeepsBlanks` — a change of the conventions that is not about whitespace and newlines.

## Main results

* `Engine.Hears.ahead`, `Engine.Ahead.handOut` — what is read and not dropped gets into the queue,
  and out of it again.
* `Stream.journal_ahead` — this is so at all times, up to the first line that does not fit.
* `Stream.never_reads_past` — **a stream never reads past the line that it hands out**.
-/

namespace Offside

/-! ### Dropped whitespace -/

/-- A text, and what is left of it when some of the whitespace that its lines start with has been
dropped. -/
inductive Layout.Thinned (l : Layout) : List CodePoint → List CodePoint → Prop where
  | nil : l.Thinned [] []
  /-- A character is left. -/
  | keep {text out : List CodePoint} (h : l.Thinned text out) (c : CodePoint) :
      l.Thinned (text ++ [c]) (out ++ [c])
  /-- A run of whitespace is dropped, at the start of the text or behind a newline. -/
  | drop {text out run : List CodePoint} (h : l.Thinned text out)
      (hline : text = [] ∨ text.getLast? = some l.newline) (hrun : run ⊆ l.whitespace) :
      l.Thinned (text ++ run) out

theorem Layout.Thinned.append {l : Layout} {text out : List CodePoint} (h : l.Thinned text out)
    (more : List CodePoint) : l.Thinned (text ++ more) (out ++ more) := by
  induction more using List.reverseRecOn with
  | nil => simpa using h
  | append_singleton more c ih =>
    rw [← List.append_assoc, ← List.append_assoc]
    exact ih.keep c

/-! ### What is read gets into the queue -/

namespace Engine

variable {file : Option String} {e e' : Engine}
  {answers : List (Except ReadError (Option CodePoint))}
  {error : Option ReadError} {l : Layout} {chars settled : List CodePoint} {seen : List Token}

/-- **What is heard is queued**, behind what was queued before, unless the line does not fit.  Only
whitespace that starts a line may be dropped, and no more than one line gets into the queue. -/
theorem Hears.ahead (h : Hears file e answers error e')
    (hnewline : e.layout.newline ∉ e.layout.whitespace) (lead : List CodePoint)
    (hdue : e.due = lead.map .content) (hlead : lead ⊆ e.layout.whitespace) :
    (∃ m before c, error = some (.mismatch m) ∧ answers = before ++ [.ok (some c)]) ∨
      ∃ dropped, lead ++ charsOf answers = dropped ++ Token.contents e'.due ∧
        e.layout.newline ∉ (Token.contents e'.due).dropLast ∧
        (dropped = [] ∨ error = none ∧ e.lineStart = true ∧ dropped ⊆ e.layout.whitespace) := by
  -- a queue that holds only whitespace is within one line
  have hsame {e : Engine} {lead : List CodePoint} (hdue : e.due = lead.map .content)
      (hlead : lead ⊆ e.layout.whitespace) (hnewline : e.layout.newline ∉ e.layout.whitespace) :
      Token.contents e.due = lead ∧ e.layout.newline ∉ lead.dropLast := by
    rw [hdue, Token.contents_map_content]
    exact ⟨rfl, fun hmem => hnewline (hlead (List.mem_of_mem_dropLast hmem))⟩
  -- by what is heard; `lead` is the whitespace that has been held back since the line started
  induction h generalizing lead with
  | ended =>
    obtain ⟨hcontents, hline⟩ := hsame hdue hlead hnewline
    exact Or.inr ⟨[], by simp [hcontents], by simpa [hcontents] using hline, Or.inl rfl⟩
  | fail =>
    obtain ⟨hcontents, hline⟩ := hsame hdue hlead hnewline
    exact Or.inr ⟨[], by simp [hcontents], by rwa [hcontents], Or.inl rfl⟩
  | @stop e hmore =>
    obtain ⟨hcontents, hline⟩ := hsame hdue hlead hnewline
    have hdue' : (e.finish.enqueue none).due = e.due := due_enqueue_none _
    exact Or.inr ⟨[], by simp [hdue', hcontents], by rwa [hdue', hcontents], Or.inl rfl⟩
  | @hold e e' c answers error hmore hc hrest ih =>
    have hc' : c ∈ e.layout.whitespace := (holds_iff.1 hc).2.2
    have hlead' : lead ++ [c] ⊆ (e.holdBack c).layout.whitespace := by
      rw [layout_holdBack]
      exact List.append_subset.2 ⟨hlead, by simpa using hc'⟩
    rcases ih (by rwa [layout_holdBack]) (lead ++ [c]) (by rw [due_holdBack, hdue]; simp) hlead'
      with ⟨m, before, d, herror, hanswers⟩ | ⟨dropped, hchars, hline, hdropped⟩
    · exact Or.inl ⟨m, .ok (some c) :: before, d, herror, by rw [hanswers, List.cons_append]⟩
    · rw [layout_holdBack] at hline hdropped
      rw [lineStart_holdBack] at hdropped
      refine Or.inr ⟨dropped, ?_, hline, hdropped⟩
      rw [charsOf_char, ← hchars]
      simp
  | @pass e c hmore hc =>
    have hobserve : ((e.arrive c).observe c).due = e.due := e.due_arrive c
    have hcontents : Token.contents
        (((e.arrive c).observe c).enqueue (some (.content c))).due = lead ++ [c] := by
      rw [due_enqueue_some, hobserve, hdue]
      simp
    -- the last character queued may be the newline, those before it are whitespace
    refine Or.inr ⟨[], by rw [hcontents]; simp, ?_, Or.inl rfl⟩
    rw [hcontents, List.dropLast_concat]
    exact fun hmem => hnewline (hlead hmem)
  | @level e c stack hmore hc hstack =>
    -- the whitespace is dropped, unless it is kept
    have hrelevel : ((e.arrive c).relevel stack).due = e.due := e.due_arrive c
    have hlayout : ((e.arrive c).relevel stack).layout = e.layout := e.layout_arrive c
    have hcontents : Token.contents
        (((e.arrive c).relevel stack).place (e.layout.marks e.depth stack.depth) c).due =
          (if e.layout.keepWhitespace then lead else []) ++ [c] := by
      rw [due_place, hrelevel, hlayout, hdue]
      split <;> simp [Layout.contents_marks]
    rw [hcontents, List.dropLast_concat]
    cases hkeep : e.layout.keepWhitespace with
    | true =>
      refine Or.inr ⟨[], by simp, ?_, Or.inl rfl⟩
      exact fun hmem => hnewline (hlead hmem)
    | false => exact Or.inr ⟨lead, by simp, by simp, Or.inr ⟨rfl, hc.lineStart_eq, hlead⟩⟩
  | @misfit e c hmore hc hstack => exact Or.inl ⟨_, [], c, rfl, rfl⟩

/-- What was read is `settled`, that is handed out or dropped, or it is queued.  What is queued
belongs to one line, and what is read next starts a line only where one starts. -/
structure Ahead (l : Layout) (chars : List CodePoint) (seen : List Token) (settled : List CodePoint)
    (e : Engine) : Prop where
  newline_eq : e.layout.newline = l.newline
  whitespace_eq : e.layout.whitespace = l.whitespace
  pending : e.Pending
  chars_eq : chars = settled ++ Token.contents e.due
  thinned : l.Thinned settled (Token.contents seen)
  notMem : l.newline ∉ (Token.contents e.due).dropLast
  startsLine : e.queue = [] → e.exhausted = false → e.lineStart = true →
    settled = [] ∨ settled.getLast? = some l.newline

theorem ahead_fresh (l : Layout) (rules : List Rule) : Ahead l [] [] [] (fresh l rules) where
  newline_eq := rfl
  whitespace_eq := rfl
  pending := .empty rfl
  chars_eq := rfl
  thinned := .nil
  notMem := List.not_mem_nil
  startsLine _ _ _ := Or.inl rfl

/-- What is heard is added to what was read. -/
theorem Ahead.hears (h : Ahead l chars seen settled e) (hnewline : l.newline ∉ l.whitespace)
    (hq : e.queue = []) (hhears : Hears file e answers error e') :
    (∃ m before c, error = some (.mismatch m) ∧ answers = before ++ [.ok (some c)]) ∨
      ∃ settled', Ahead l (chars ++ charsOf answers) seen settled' e' := by
  rcases hhears.ahead (by rwa [h.newline_eq, h.whitespace_eq]) [] (due_of_queue_nil hq)
    (List.nil_subset _) with hobjects | ⟨dropped, hchars, hline, hdropped⟩
  · exact Or.inl hobjects
  rw [h.newline_eq] at hline
  rw [h.whitespace_eq] at hdropped
  have hsettled : chars = settled := by
    rw [h.chars_eq, due_of_queue_nil hq, Token.contents_nil, List.append_nil]
  refine Or.inr ⟨settled ++ dropped, ?_, ?_, hhears.pending [] hq, ?_, ?_, hline, ?_⟩
  · rw [hhears.layout_eq, h.newline_eq]
  · rw [hhears.layout_eq, h.whitespace_eq]
  · rw [hsettled, List.append_assoc, ← hchars, List.nil_append]
  · rcases hdropped with rfl | ⟨-, hstart, hrun⟩
    · rw [List.append_nil]
      exact h.thinned
    · -- who drops something has been asked for the first character of a line
      cases hmore : e.exhausted with
      | true =>
        obtain ⟨rfl, -⟩ := hhears.exhausted_of_exhausted hmore
        obtain ⟨rfl, -⟩ : dropped = [] ∧ _ := List.append_eq_nil_iff.1 hchars.symm
        rw [List.append_nil]
        exact h.thinned
      | false => exact h.thinned.drop (h.startsLine hq hmore hstart) hrun
  · intro hq' hmore' hstart'
    cases herror : error with
    | none =>
      subst herror
      exact absurd hq' hhears.queue_ne_nil
    | some x =>
      -- nothing was queued, so nothing was heard but an error
      obtain rfl : dropped = [] := hdropped.resolve_right (by simp [herror])
      have hmore : e.exhausted = false := by
        by_contra hended
        rw [Bool.not_eq_false] at hended
        rw [(hhears.exhausted_of_exhausted hended).2] at hmore'
        cases hmore'
      rw [List.append_nil]
      exact h.startsLine hq hmore (by rwa [hhears.lineStart_eq] at hstart')

/-- Another convention makes no difference, unless it is about whitespace and newlines. -/
theorem Ahead.alike (h : Ahead l chars seen settled e) (halike : e.Alike e')
    (hnewline : e'.layout.newline = e.layout.newline)
    (hwhitespace : e'.layout.whitespace = e.layout.whitespace) :
    Ahead l chars seen settled e' := by
  obtain ⟨l', t, rfl⟩ := halike
  exact ⟨hnewline.trans h.newline_eq, hwhitespace.trans h.whitespace_eq,
    h.pending.alike ⟨l', t, rfl⟩, h.chars_eq, h.thinned, h.notMem, h.startsLine⟩

end Engine

/-- A convention is not about whitespace, and not about newlines. -/
def Convention.KeepsBlanks : Convention → Prop
  | .newline _ => False
  | .addWhitespace _ => False
  | .removeWhitespace _ => False
  | _ => True

theorem Engine.blanks_adopt {convention : Convention} (h : convention.KeepsBlanks) (e : Engine) :
    (e.adopt convention).layout.newline = e.layout.newline ∧
      (e.adopt convention).layout.whitespace = e.layout.whitespace := by
  let P (e' : Engine) : Prop :=
    e'.layout.newline = e.layout.newline ∧ e'.layout.whitespace = e.layout.whitespace
  have hsame : P e := ⟨rfl, rfl⟩
  cases convention with
  | indentMark v => exact getD_of_accepted (P := P) hsame fun _ _ => hsame
  | dedentMark v => exact getD_of_accepted (P := P) hsame fun _ _ => hsame
  | newline v => exact h.elim
  | keepWhitespace v => exact hsame
  | addWhitespace vs => exact h.elim
  | removeWhitespace vs => exact h.elim
  | rule r => exact hsame
  | paired opening closing => exact getD_of_accepted (P := P) hsame fun _ _ => hsame
  | line opening => exact getD_of_accepted (P := P) hsame fun _ _ => hsame

namespace Stream

open Engine CharSource

/-! ### What is queued gets out -/

section HandOut

variable {σ : Type} {s : Stream σ} {l : Layout} {chars settled : List CodePoint} {seen : List Token}

theorem mem_dropLast_append {α : Type} {a : α} {first second : List α} (h : a ∈ second.dropLast) :
    a ∈ (first ++ second).dropLast := by
  have hne : second ≠ [] := by
    rintro rfl
    simp at h
  rw [List.dropLast_append_of_ne_nil hne]
  exact List.mem_append_right _ h

/-- If handing out the last of the queue starts a line, that was a newline of the text. -/
theorem newline_of_handOut (hp : s.engine.Pending) (hne : s.engine.queue ≠ [])
    (hq : s.handOut.next.engine.queue = []) (hmore : s.engine.exhausted = false)
    (hstart : s.handOut.next.engine.lineStart = true) :
    tokensOf s.handOut.outcome = [.content s.engine.layout.newline] := by
  rcases handOut_cases hp hne with ⟨t, rest, hqueue, hs, -⟩ | ⟨-, hended, -⟩ | ⟨n, -, hended, -⟩
  · rw [hs] at hq hstart ⊢
    have hrest : rest = [] := hq
    have hchar : t.char = s.engine.layout.newline := of_decide_eq_true hstart
    -- the last of the queue is a character of the text, since the input has not ended
    cases hp with
    | empty hempty => exact absurd hempty hne
    | ending tokens hended => simp [hmore] at hended
    | line tokens c hline =>
      rw [hqueue, hrest] at hline
      obtain rfl : t = .content c := by simpa using congrArg List.getLast? hline
      rw [← hchar]
      rfl
  · simp [hmore] at hended
  · simp [hmore] at hended

/-- **What is handed out is settled then.** -/
theorem ahead_handOut (h : s.engine.Ahead l chars seen settled) (hne : s.engine.queue ≠ []) :
    s.handOut.next.engine.Ahead l chars (seen ++ tokensOf s.handOut.outcome)
      (settled ++ Token.contents (tokensOf s.handOut.outcome)) := by
  obtain ⟨n, hdue⟩ := due_handOut h.pending hne
  have hmarks : Token.contents (List.replicate n s.engine.dedentToken) = [] :=
    Token.contents_of_marks (by simp [dedentToken])
  have hcontents : Token.contents (tokensOf s.handOut.outcome) ++
      Token.contents s.handOut.next.engine.due = Token.contents s.engine.due := by
    rw [← Token.contents_append, hdue, Token.contents_append, hmarks, List.append_nil]
  refine ⟨?_, ?_, pending_handOut h.pending hne, ?_, ?_, ?_, ?_⟩
  · rw [layout_handOut, h.newline_eq]
  · rw [layout_handOut, h.whitespace_eq]
  · rw [List.append_assoc, hcontents, h.chars_eq]
  · rw [Token.contents_append]
    exact h.thinned.append _
  · intro hmem
    apply h.notMem
    rw [← hcontents]
    exact mem_dropLast_append hmem
  · intro hq hmore hstart
    rw [exhausted_handOut] at hmore
    rw [newline_of_handOut h.pending hne hq hmore hstart, Token.contents_singleton, h.newline_eq]
    exact Or.inr List.getLast?_concat

end HandOut

/-! ### At all times -/

variable {σ : Type} [CharSource σ] {l : Layout}

/-- A request fails because of a line, and not because its source does: the last answer of the
source was a character. -/
def Objects (s : Stream (Recorder σ)) : Prop :=
  ∃ m c, s.next.outcome = .error (.mismatch m) ∧
    s.next.next.source.heard.getLast? = some (.ok (some c))

/-- What was read before a request and is not settled is queued, unless a line did not fit. -/
def KeepsUp (l : Layout) (past : List (Stream (Recorder σ))) (s : Stream (Recorder σ)) : Prop :=
  (∃ t ∈ past, t.Objects) ∨
    ∃ settled, s.engine.Ahead l s.source.chars (handedOut past) settled

theorem keepsUp_next {past : List (Stream (Recorder σ))} {s : Stream (Recorder σ)}
    (hl : l.newline ∉ l.whitespace) (h : KeepsUp l past s) :
    KeepsUp l (past ++ [s]) s.next.next := by
  rcases h with ⟨t, ht, hobjects⟩ | ⟨settled, h⟩
  · exact Or.inl ⟨t, List.mem_append_left _ ht, hobjects⟩
  have hhanded : handedOut (past ++ [s]) = handedOut past ++ tokensOf s.next.outcome := by
    simp [handedOut]
  cases hclosed : s.closed with
  -- a closed stream asks for nothing
  | true =>
    refine Or.inr ⟨settled, ?_⟩
    rw [hhanded, next_of_closed hclosed]
    simpa using h
  | false =>
    rcases next_hears hclosed with ⟨hne, hs⟩ | ⟨hq, k, error, e, told, hhears, hs⟩
    · -- what is handed out leaves the queue and is counted as seen
      rw [KeepsUp, hhanded, hs]
      exact Or.inr ⟨_, ahead_handOut h hne⟩
    · rcases h.hears hl hq hhears with ⟨m, before, c, rfl, hanswers⟩ | ⟨settled', hahead⟩
      · -- the line does not fit, and this request is the one that objects
        refine Or.inl ⟨s, List.mem_append_right _ (List.mem_singleton_self s), m, c, ?_, ?_⟩
        · rw [hs]
          rfl
        · rw [hs]
          show (asked s.source k).heard.getLast? = _
          rw [Recorder.heard_asked, hanswers, ← List.append_assoc, List.getLast?_concat]
      · rw [← Recorder.chars_asked] at hahead
        rw [KeepsUp, hhanded, hs]
        cases error with
        | some x =>
          refine Or.inr ⟨settled', ?_⟩
          show Ahead l _ (handedOut past ++ []) settled' e
          rwa [List.append_nil]
        | none =>
          exact Or.inr ⟨_, ahead_handOut (s := s.fed k e) hahead hhears.queue_ne_nil⟩

/-- **What was read is settled or queued at all times**, up to the first line that does not fit. -/
theorem journal_ahead (hl : l.newline ∉ l.whitespace) :
    Journal (σ := Recorder σ) Convention.KeepsBlanks (KeepsUp l) where
  next h := keepsUp_next hl h
  close b h := h
  adopt hallowed h := by
    refine h.imp_right fun ⟨settled, h⟩ => ⟨settled, ?_⟩
    obtain ⟨hnewline, hwhitespace⟩ := blanks_adopt hallowed _
    exact h.alike (alike_adopt _ _) hnewline hwhitespace

/-! ### The end of a line -/

/-- A text that is read without an error and ends with a newline is let out completely, and its
newline comes last. -/
theorem exists_line_end {rules : List Rule} {name : Option String} {p : List CodePoint}
    (hl : l.newline ∉ l.whitespace) (hlast : p.getLast? = some l.newline)
    (hread : (ofText name (.fresh l rules) p).drain.2.outcome = .ok ()) :
    ∃ tokens e notices, (Engine.fresh l rules).feedAll name p = ⟨tokens, .ok e, notices⟩ ∧
      e.queue = [] ∧ tokens.getLast? = some (.content l.newline) := by
  have hfresh : (Engine.fresh l rules).Leading := leading_fresh l rules
  rcases hdrain : (ofText name (.fresh l rules) p).drain with ⟨all, outcome, next, notices⟩
  rw [hdrain] at hread
  obtain rfl : outcome = .ok () := hread
  obtain ⟨tokens, e, told, b, hfed, -, -⟩ := exists_feedAll_of_drain_ok hfresh rfl hdrain
  obtain ⟨before, rfl⟩ := List.getLast?_eq_some_iff.1 hlast
  obtain ⟨out, e₁, said, tokens₁, notices₁, hbefore, hc, rfl⟩ := exists_of_feedAll_concat hfed
  have hlayout : e₁.layout = l := layout_feedAll hbefore
  -- a newline is never held back, so what was held back is let out with it
  have hholds : ¬ e₁.holds l.newline = true := by
    rw [holds_iff, hlayout]
    exact fun h => hl h.2.2
  obtain ⟨hqueue, last, rfl⟩ := exists_of_feed hc hholds
  refine ⟨_, e, told, hfed, hqueue, ?_⟩
  rw [← List.append_assoc, List.getLast?_concat]

/-- **A stream never reads past the line that it hands out.**  If a text that ends with a newline
can be read without an error, a stream over any source that begins with this text hands out the
same tokens up to the newline, and then it has read the text and nothing else.  Whatever is done to
a stream, up to the first line that does not fit what it has read is settled, that is handed out or
dropped from the start of a line, or it is queued as it was read, and what is queued belongs to one
line. -/
theorem never_reads_past (l : Layout) (rules : List Rule) (name : Option String)
    (hl : l.newline ∉ l.whitespace) :
    (∀ p : List CodePoint, p.getLast? = some l.newline →
      (ofText name (.fresh l rules) p).drain.2.outcome = .ok () →
        ∃ tokens : List Token, tokens.getLast? = some (.content l.newline) ∧
          ∀ {σ : Type} [CharSource σ] (source : σ), Begins source p →
            let s := start source name l rules
            s.outcomes tokens.length = tokens.map (fun t => .ok (some t)) ∧
              s.recorded.outcomes tokens.length = s.outcomes tokens.length ∧
              (s.recorded.after tokens.length).source.heard = p.map (fun c => .ok (some c)) ∧
              (s.after tokens.length).engine.queue = []) ∧
      ∀ {σ : Type} [CharSource σ] (source : σ) (ops : List Operation),
        (∀ op ∈ ops, op.Within Convention.KeepsBlanks) →
          let s := start source name l rules
          let queued := Token.contents (s.run ops).2.engine.due
          (∀ t ∈ s.recorded.turnsIn ops, ¬ t.Objects) →
            ∃ settled, (s.recorded.run ops).2.source.chars = settled ++ queued ∧
              l.Thinned settled (Token.contents (s.run ops).1) ∧
              l.newline ∉ queued.dropLast := by
  constructor
  · intro p hlast hread
    obtain ⟨tokens, e, notices, hfed, hqueue, hlast'⟩ := exists_line_end hl hlast hread
    have hfresh : (Engine.fresh l rules).Leading := leading_fresh l rules
    refine ⟨tokens, hlast', ?_⟩
    intro σ _ source hsource s
    -- a recorder answers like what it records, and its account tells how much was asked
    have hrecorded : Begins s.recorded.source p := by
      rw [Begins, Recorder.answers_eq]
      exact hsource
    obtain ⟨houtcomes, hafter⟩ := outcomes_of_begins (s := s) rfl rfl hfresh hfed hqueue hsource
    obtain ⟨houtcomes', hafter'⟩ :=
      outcomes_of_begins (s := s.recorded) rfl rfl hfresh hfed hqueue hrecorded
    refine ⟨houtcomes, houtcomes'.trans houtcomes.symm, ?_, ?_⟩
    · rw [hafter']
      show (asked s.recorded.source p.length).heard = _
      rw [Recorder.heard_asked, hrecorded]
      rfl
    · rw [hafter]
      exact hqueue
  · -- no request of the run has objected, so the account holds at its end
    intro σ _ source ops hops s queued hno
    have hstart : KeepsUp l [] s.recorded := Or.inr ⟨[], ahead_fresh l rules⟩
    have hrun := s.run_recorded ops
    rcases (journal_ahead hl).run hstart hops with ⟨t, ht, hobjects⟩ | ⟨settled, hahead⟩
    · exact absurd hobjects (hno t ht)
    · have hthinned := hahead.thinned
      rw [List.nil_append, handedOut_turnsIn] at hthinned
      have hqueued : queued = Token.contents (s.recorded.run ops).2.engine.due := by
        show Token.contents (s.run ops).2.engine.due = _
        rw [hrun]
        rfl
      rw [hqueued, hrun]
      exact ⟨settled, hahead.chars_eq, hthinned, hahead.notMem⟩

/-- A block in a source that fails later on, with the whitespace of a line in hand. -/
def brokenBlock : ScriptSource :=
  { answers := "a\n  b\n".codePoints.map (fun c => .ok (some c)) ++
      [.ok (some ' '), .error (.raised "OSError" "gone"), .ok (some 'c')] }

/-- The block is read alike from a text that goes on and from a source that fails, and the
whitespace in hand when it fails is all that is queued. -/
theorem never_reads_past_brokenBlock :
    let l : Layout := {}
    let p := "a\n  b\n".codePoints
    let s := start brokenBlock none l []
    let t := start ({ rest := p ++ "c".codePoints } : TextSource) none l []
    let ops : List Operation := [.read (.int 7)]
    l.newline ∉ l.whitespace ∧ p.getLast? = some l.newline ∧
      (ofText none (.fresh l []) p).drain.2.outcome = .ok () ∧
      (∃ n, s.outcomes n = t.outcomes n ∧
        (s.recorded.after n).source.heard = p.map (fun c => .ok (some c)) ∧
        (t.recorded.after n).source.heard = p.map (fun c => .ok (some c))) ∧
      Token.contents (s.run ops).2.engine.due = " ".codePoints ∧
      ∃ settled, (s.recorded.run ops).2.source.chars = settled ++ " ".codePoints ∧
        l.Thinned settled (Token.contents (s.run ops).1) := by
  intro l p s t ops
  have hl : l.newline ∉ l.whitespace := by decide
  have hlast : p.getLast? = some l.newline := by decide
  have hread : (ofText none (.fresh l []) p).drain.2.outcome = .ok () := by decide +kernel
  have hdue : Token.contents (s.run ops).2.engine.due = " ".codePoints := by decide +kernel
  obtain ⟨hlines, hruns⟩ := never_reads_past l [] none hl
  obtain ⟨tokens, -, hall⟩ := hlines p hlast hread
  obtain ⟨hs, -, hheard, -⟩ := hall brokenBlock rfl
  obtain ⟨ht, -, hheard', -⟩ := hall ({ rest := p ++ "c".codePoints } : TextSource) rfl
  have hops : ∀ op ∈ ops, op.Within Convention.KeepsBlanks := by simp [ops, Operation.Within]
  have hturns : (s.recorded.turnsIn ops).map (fun t => t.next.outcome) =
      "a\n>b\n".codePoints.map (fun c =>
        .ok (some (if c = .char '>' then ⟨.indent, c⟩ else .content c))) ++
        [.error (.raised "OSError" "gone")] := by decide +kernel
  have hno : ∀ t ∈ s.recorded.turnsIn ops, ¬ t.Objects := by
    rintro t ht ⟨m, c, hm, -⟩
    have hmem := List.mem_map_of_mem (f := fun t => t.next.outcome) ht
    rw [hturns, hm] at hmem
    simp at hmem
  obtain ⟨settled, hchars, hthinned, -⟩ := hruns brokenBlock ops hops hno
  refine ⟨hl, hlast, hread, ⟨tokens.length, hs.trans ht.symm, hheard, hheard'⟩, hdue, settled, ?_,
    hthinned⟩
  rw [hchars, hdue]

end Stream

end Offside
