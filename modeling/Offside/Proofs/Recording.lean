import Offside.Proofs.Accounting
import Offside.Proofs.OpenFile

/-!
# Keeping a record of the source

How far a source has been read cannot always be seen from the source itself, which may be the same
before a request and after it.  So a source is put into a recorder: it answers as before, and it
keeps all its answers.  Nobody who reads it can tell the difference, so whatever the record says at
the end of a run is what was read by the run over the source alone.

The escape rules are shown what is recorded.  Characters arrive in two places, as the first of a
line or of its rest and while the whitespace of a line is read ahead, and what was read ahead is
handed out later without being read again; but each of them is shown to the rules where it
arrives, and nowhere else.

## Main definitions

* `CharSource.MirrorsClosing` — one source is closed like another.
* `Recorder` — a source with a record of its answers.
* `Stream.recorded` — a stream over its source in a recorder.
* `Convention.KeepsRules` — a change of the conventions that registers no escape rule.

## Main results

* `Stream.run_mapSource` — a stream over a source that answers alike goes through a run alike.
* `Stream.run_recorded` — a recorder makes no difference.
* `Stream.tracker_run` — the escape rules have seen what is recorded, once and in order.
-/

namespace Offside

/-! ### Runs over sources that answer alike -/

/-- One source is closed like another. -/
def CharSource.MirrorsClosing {σ τ : Type} [CharSource σ] [CharSource τ] (f : σ → τ) : Prop :=
  ∀ source, CharSource.close (f source) =
    ⟨(CharSource.close source).outcome, f (CharSource.close source).next,
      (CharSource.close source).notices⟩

namespace Stream

section Mirrors

variable {σ τ : Type} [CharSource σ] [CharSource τ] {f : σ → τ}

theorem collect_mapSource (hf : CharSource.Mirrors f) (s : Stream σ) (n : Nat) :
    (s.mapSource f).collect n =
      ((s.collect n).1, ⟨(s.collect n).2.outcome, (s.collect n).2.next.mapSource f,
        (s.collect n).2.notices⟩) := by
  induction n generalizing s with
  | zero => rfl
  | succ n ih =>
    rw [collect, collect, next_mapSource hf]
    rcases s.next with ⟨x | _ | t, s', notices⟩
    · rfl
    · rfl
    · simp only [ih]
      rfl

theorem reading_mapSource (hf : CharSource.Mirrors f) (s : Stream σ) (size : Value) :
    (s.mapSource f).reading size =
      ((s.reading size).1, ⟨(s.reading size).2.outcome, (s.reading size).2.next.mapSource f,
        (s.reading size).2.notices⟩) := by
  rw [reading, reading]
  cases sizeOf? size with
  | none => rfl
  | some n =>
    by_cases hn : n < 0
    · simp only [if_pos hn, drain_mapSource hf]
    · simp only [if_neg hn, collect_mapSource hf]

theorem readValue_mapSource (hf : CharSource.Mirrors f) (s : Stream σ) (size : Value) :
    (s.mapSource f).readValue size =
      ⟨(s.readValue size).outcome, (s.readValue size).next.mapSource f,
        (s.readValue size).notices⟩ := by
  rw [readValue_eq_reading, readValue_eq_reading, reading_mapSource hf]
  rfl

theorem close_mapSource (hclose : CharSource.MirrorsClosing f) (s : Stream σ) :
    (s.mapSource f).close =
      ⟨s.close.outcome, s.close.next.mapSource f, s.close.notices⟩ := by
  have hsource : CharSource.close (s.mapSource f).source = _ := hclose s.source
  rw [close, close]
  by_cases hclosed : s.closed = true
  · have hclosed' : (s.mapSource f).closed = true := hclosed
    rw [if_pos hclosed, if_pos hclosed']
  · have hclosed' : ¬ (s.mapSource f).closed = true := hclosed
    rw [if_neg hclosed, if_neg hclosed']
    simp only [hsource]
    rfl

theorem closing_mapSource (hclose : CharSource.MirrorsClosing f) {α : Type}
    (r : Reply (Stream σ) α) :
    closing ⟨r.outcome, r.next.mapSource f, r.notices⟩ =
      ⟨(closing r).outcome, (closing r).next.mapSource f, (closing r).notices⟩ := by
  simp only [closing, close_mapSource hclose]

theorem perform_mapSource (hf : CharSource.Mirrors f) (hclose : CharSource.MirrorsClosing f)
    (s : Stream σ) (op : Operation) :
    (s.mapSource f).perform op = ((s.perform op).1, (s.perform op).2.mapSource f) := by
  cases op with
  | next => simp only [perform, next_mapSource hf]
  | read size => simp only [perform, readValue_mapSource hf, reading_mapSource hf]
  | iterate => simp only [perform, drain_mapSource hf]
  | readAndClose size =>
    simp only [perform, readValue_mapSource hf, closing_mapSource hclose, reading_mapSource hf]
  | close => simp only [perform, close_mapSource hclose]
  | closeSource =>
    have hsource : CharSource.close (s.mapSource f).source = _ := hclose s.source
    simp only [perform, closeSource, hsource]
    rfl
  | adopt convention => rfl

/-- **A stream over a source that answers alike goes through a run alike.** -/
theorem run_mapSource (hf : CharSource.Mirrors f) (hclose : CharSource.MirrorsClosing f)
    (s : Stream σ) (ops : List Operation) :
    (s.mapSource f).run ops = ((s.run ops).1, (s.run ops).2.mapSource f) := by
  induction ops generalizing s with
  | nil => rfl
  | cons op ops ih => simp only [run, perform_mapSource hf hclose, ih]

end Mirrors

end Stream

/-! ### Recorders -/

/-- A source with a record of its answers. -/
structure Recorder (σ : Type) where
  /-- The source. -/
  source : σ
  /-- Its answers so far. -/
  heard : List (Except ReadError (Option CodePoint)) := []

namespace Recorder

variable {σ : Type} [CharSource σ]

instance : CharSource (Recorder σ) where
  pull r :=
    let reply := CharSource.pull r.source
    ⟨reply.outcome, ⟨reply.next, r.heard ++ [reply.outcome]⟩, reply.notices⟩
  close r :=
    let reply := CharSource.close r.source
    ⟨reply.outcome, ⟨reply.next, r.heard⟩, reply.notices⟩
  available r := CharSource.available r.source
  name r := CharSource.name r.source
  remaining r := CharSource.remaining r.source
  remaining_le r := CharSource.remaining_le r.source
  remaining_lt r := CharSource.remaining_lt r.source

/-- The characters among the answers so far. -/
def chars (r : Recorder σ) : List CodePoint := charsOf r.heard

/-- A recorder answers like its source. -/
theorem mirrors_source : CharSource.Mirrors (Recorder.source (σ := σ)) := fun _ => rfl

theorem answers_eq (r : Recorder σ) (n : Nat) :
    CharSource.answers r n = CharSource.answers r.source n := by
  induction n generalizing r with
  | zero => rfl
  | succ n ih =>
    rw [CharSource.answers_succ, CharSource.answers_succ, ih]
    rfl

/-- What is asked of a recorder is recorded. -/
theorem heard_asked (r : Recorder σ) (n : Nat) :
    (CharSource.asked r n).heard = r.heard ++ CharSource.answers r n := by
  induction n generalizing r with
  | zero => simp
  | succ n ih =>
    show (CharSource.asked (CharSource.pull r).next n).heard = _
    rw [ih, CharSource.answers_succ]
    show r.heard ++ [(CharSource.pull r).outcome] ++ _ = _
    simp

theorem chars_asked (r : Recorder σ) (n : Nat) :
    (CharSource.asked r n).chars = r.chars ++ charsOf (CharSource.answers r n) := by
  rw [chars, heard_asked, charsOf_append, chars]

end Recorder

namespace Stream

open Engine CharSource

/-- The stream over its source in a recorder. -/
def recorded {σ : Type} (s : Stream σ) : Stream (Recorder σ) :=
  s.mapSource fun source => { source := source }

variable {σ : Type} [CharSource σ]

/-- **A recorder makes no difference**: the tokens are the same, and so is the stream afterwards
but for the record. -/
theorem run_recorded (s : Stream σ) (ops : List Operation) :
    s.run ops = ((s.recorded.run ops).1, (s.recorded.run ops).2.mapSource Recorder.source) :=
  run_mapSource Recorder.mirrors_source (fun _ => rfl) s.recorded ops

end Stream

/-! ### What the escape rules see -/

theorem Tracker.after_eq_foldl (t : Tracker) (text : List CodePoint) :
    t.after text = text.foldl Tracker.observe t := by
  induction text generalizing t with
  | nil => rfl
  | cons c text ih => rw [after_cons, ih, List.foldl_cons]

/-- A convention is no escape rule. -/
def Convention.KeepsRules : Convention → Prop
  | .rule _ => False
  | .paired _ _ => False
  | .line _ => False
  | _ => True

namespace Engine

variable {e e' : Engine} {file : Option String} {c : CodePoint}
  {answers : List (Except ReadError (Option CodePoint))} {error : Option ReadError}

/-- A character that is not escaped shows the escape rules nothing. -/
theorem tracker_observe_of_escapes_eq_false (h : e.escapes c = false) :
    e.tracker.observe c = e.tracker := congrArg tracker (observe_of_escapes_eq_false h)

/-- **What is heard is shown to the escape rules**, each character once. -/
theorem Hears.tracker_eq (h : Hears file e answers error e') :
    e'.tracker = e.tracker.after (charsOf answers) := by
  have hunescaped {e : Engine} {c : CodePoint} (hesc : e.escapes c = false) :
      (e.arrive c).tracker = e.tracker.after (charsOf [.ok (some c)]) := by
    rw [tracker_arrive, charsOf_char, Tracker.after_cons, tracker_observe_of_escapes_eq_false hesc]
    rfl
  induction h with
  | ended => rfl
  | fail => rfl
  | stop => rfl
  | hold hmore hc hrest ih =>
    rw [ih, tracker_holdBack, charsOf_char, Tracker.after_cons,
      tracker_observe_of_escapes_eq_false (holds_iff.1 hc).1]
  | @pass e c => exact congrArg (Tracker.observe · c) (e.tracker_arrive c)
  | level hmore hc hstack => exact hunescaped hc.escapes_eq
  | misfit hmore hc hstack => exact hunescaped hc.escapes_eq

theorem tracker_adopt {convention : Convention} (h : convention.KeepsRules) (e : Engine) :
    (e.adopt convention).tracker = e.tracker := by
  have hgetD {α : Type} {r : Except NotSingle α} {f : α → Engine}
      (hf : ∀ a, (f a).tracker = e.tracker) : ((r.map f).toOption.getD e).tracker = e.tracker :=
    getD_of_accepted (P := fun e' => e'.tracker = e.tracker) rfl fun a _ => hf a
  cases convention with
  | indentMark v => exact hgetD fun _ => rfl
  | dedentMark v => exact hgetD fun _ => rfl
  | newline v => exact hgetD fun _ => rfl
  | keepWhitespace v => rfl
  | addWhitespace vs =>
    obtain ⟨ws, hws⟩ := e.exists_addWhitespace vs
    rw [adopt, hws]
  | removeWhitespace vs =>
    obtain ⟨ws, hws⟩ := e.exists_removeWhitespace vs
    rw [adopt, hws]
  | rule r => exact h.elim
  | paired opening closing => exact h.elim
  | line opening => exact h.elim

end Engine

namespace Stream

open Engine CharSource

variable {σ : Type}

@[simp] theorem tracker_handOut (s : Stream σ) :
    s.handOut.next.engine.tracker = s.engine.tracker := by
  obtain ⟨stack, queue, lineStart, dedents, hengine⟩ := s.exists_engine_handOut
  rw [hengine]

variable [CharSource σ]

/-- At all times the escape rules have seen what is recorded. -/
theorem invariant_tracker (t : Tracker) :
    Invariant (σ := Recorder σ) Convention.KeepsRules
      fun _ s => s.engine.tracker = t.after s.source.chars where
  next {_ s} h := by
    cases hclosed : s.closed with
    | true => rwa [next_of_closed hclosed]
    | false =>
      rcases next_hears hclosed with ⟨-, hs⟩ | ⟨-, k, error, e, told, hhears, hs⟩
      · rw [hs, tracker_handOut]
        exact h
      · have hheard : e.tracker = t.after (asked s.source k).chars := by
          rw [hhears.tracker_eq, h, Recorder.chars_asked, Tracker.after_append]
        rw [hs, Reply.next_after]
        cases error with
        | none => exact (tracker_handOut (s.fed k e)).trans hheard
        | some x => exact hheard
  close b h := h
  adopt hallowed h := (tracker_adopt hallowed _).trans h

/-- **The escape rules have seen what was read from the source**, each character once and in order,
if none of them is registered meanwhile. -/
theorem tracker_run (s : Stream σ) {ops : List Operation}
    (hops : ∀ op ∈ ops, op.Within Convention.KeepsRules) :
    (s.run ops).2.engine.tracker = s.engine.tracker.after (s.recorded.run ops).2.source.chars := by
  have hstart : s.recorded.engine.tracker = s.engine.tracker.after s.recorded.source.chars := rfl
  rw [s.run_recorded ops]
  exact @Invariant.run _ _ _ _ [] _ (invariant_tracker s.engine.tracker) hstart _ hops

end Stream

end Offside
