import Offside.Proofs.Lossless
import Offside.Proofs.Respelling
import Offside.Proofs.Spelling

/-!
# What does not matter for the analysis

Neither the marks nor whether whitespace is kept has any influence on what the analysis finds.
Other marks are spelled in the places of the marks.  If the whitespace is kept, the stream takes
more requests for the same: between the marks of a line and its first character it hands out the
whitespace of the line.  Before that and afterwards it has found the same, answer by answer.

So one stream is told from the other: its answers are **woven** from those of the stream that drops
the whitespace, and from the runs of whitespace which that stream decides about.

## Main definitions

* `Engine.Retains` — two analyses of which the second is to hand out some whitespace besides.
* `Stream.woven` — an answer with the whitespace that comes before it.
* `Stream.withRuns` — the answers to some requests with the whitespace of their lines put in.

## Main results

* `Stream.after_withRuns` — keeping whitespace puts it in, and nothing else.
* `Stream.sameAnalysis_after` — **marks and kept whitespace do not matter** for the analysis.
-/

namespace Offside

/-! ### The whitespace that is decided about -/

namespace CharSource

variable {σ : Type} [CharSource σ] {source : σ} {c : CodePoint}

theorem leading?_of_char (h : (pull source).outcome = .ok (some c)) (l : Layout) (t : Tracker) :
    leading? l t source =
      if t.escapes c then none
      else if c ∈ l.whitespace then (leading? l t (pull source).next).map (c :: ·)
      else if c = l.newline then none
      else some [] := by
  rw [leading?]
  rcases hpull : pull source with ⟨o, next, told⟩
  rw [hpull] at h
  obtain rfl : o = .ok (some c) := h
  rfl

theorem leading?_of_end (h : (pull source).outcome = .ok none) (l : Layout) (t : Tracker) :
    leading? l t source = none := by
  rw [leading?]
  rcases hpull : pull source with ⟨o, next, told⟩
  rw [hpull] at h
  obtain rfl : o = .ok none := h
  rfl

end CharSource

namespace Engine

open CharSource

/-- The same analysis, which keeps the whitespace. -/
def keeping (e : Engine) : Engine := { e with layout := { e.layout with keepWhitespace := true } }

/-- One queue is the other with a run put in between the marks of a line and its first character. -/
def PutIn (run : List CodePoint) (queue queue' : List (Option Token)) : Prop :=
  (run = [] ∧ queue' = queue) ∨
    ∃ marks c, (∀ t ∈ marks, t.role ≠ Role.content) ∧
      queue = (marks ++ [Token.content c]).map some ∧
      queue' = (marks ++ (run ++ [c]).map Token.content).map some

/-- Two analyses differ in that the second keeps the whitespace, and has to hand out a run of it
behind the marks that are queued. -/
structure Retains (run : List CodePoint) (e e' : Engine) : Prop where
  eq_keeping : e' = { e.keeping with queue := e'.queue }
  putIn : PutIn run e.queue e'.queue

variable {e e' : Engine} {run : List CodePoint} {c : CodePoint}

theorem retains_keeping (e : Engine) : Retains [] e e.keeping := ⟨rfl, Or.inl ⟨rfl, rfl⟩⟩

theorem Retains.sameAnalysis (h : Retains run e e') : SameAnalysis e e' := by
  rw [h.eq_keeping]
  exact ⟨rfl, rfl, rfl, rfl, rfl, rfl, rfl⟩

theorem Retains.queue_eq_nil (h : Retains run e e') (hq : e.queue = []) :
    run = [] ∧ e' = e.keeping := by
  rcases h.putIn with ⟨rfl, hsame⟩ | ⟨marks, c, -, hline, -⟩
  · refine ⟨rfl, ?_⟩
    rw [h.eq_keeping, hsame]
    rfl
  · simp [hq] at hline

/-- When both have handed out a token, they differ in what is left. -/
theorem Retains.handed {run' : List CodePoint} {rest rest' : List (Option Token)}
    (h : Retains run e e') (hrest : PutIn run' rest rest') (t : Token) :
    Retains run' { e with queue := rest, lineStart := t.char = e.layout.newline }
      { e' with queue := rest', lineStart := t.char = e'.layout.newline } := by
  refine ⟨?_, hrest⟩
  rw [h.eq_keeping]
  rfl

theorem keeping_arrive (e : Engine) (c : CodePoint) :
    e.keeping.arrive c = (e.arrive c).keeping := by
  unfold arrive
  show (if c = e.layout.newline then _ else _) = _
  split <;> rfl

theorem keeping_holdBack (e : Engine) (c : CodePoint) :
    e.keeping.holdBack c = (e.holdBack c).keeping := by
  unfold holdBack
  rw [keeping_arrive]
  rfl

/-- The whitespace of the line that is decided about when the source is asked. -/
def decided? {σ : Type} [CharSource σ] (e : Engine) (source : σ) : Option (List CodePoint) :=
  if e.exhausted = true ∨ e.lineStart = false then none
  else leading? e.layout e.tracker source

variable {σ : Type} [CharSource σ] {source : σ}

theorem decided?_of_holds (hmore : e.exhausted = false) (hc : e.holds c = true)
    (h : (pull source).outcome = .ok (some c)) :
    e.decided? source = ((e.holdBack c).decided? (pull source).next).map (c :: ·) := by
  obtain ⟨hesc, hline, hspace⟩ := holds_iff.1 hc
  have hesc' : e.tracker.escapes c = false := hesc
  simp [decided?, hmore, hline, leading?_of_char h, hesc', hspace]

theorem decided?_of_passes (hc : e.Passes c)
    (h : (pull source).outcome = .ok (some c)) : e.decided? source = none := by
  rw [decided?]
  split
  · rfl
  · next hline =>
    rw [leading?_of_char h]
    rcases hc with hesc | hstart | ⟨hnl, hspace⟩
    · exact if_pos hesc
    · simp [hstart] at hline
    · rw [if_neg hspace, if_pos hnl, ite_self]

theorem decided?_of_decides (hmore : e.exhausted = false) (hc : e.Decides c)
    (h : (pull source).outcome = .ok (some c)) : e.decided? source = some [] := by
  have hesc : e.tracker.escapes c = false := hc.escapes_eq
  simp [decided?, hmore, hc.lineStart_eq, leading?_of_char h, hesc, hc.notMem, hc.ne_newline]

/-- **If the whitespace is kept, the same is heard**, and the whitespace of the line that is decided
about is put in. -/
theorem Hears.keeping {file : Option String} {answers : List (Except ReadError (Option CodePoint))}
    {error : Option ReadError} {e₁ : Engine} {k : Nat} (h : Hears file e answers error e₁)
    (lead : List CodePoint) (hanswers : CharSource.answers source k = answers)
    (hdrop : e.layout.keepWhitespace = false) (hq : e.queue = (lead.map Token.content).map some) :
    ∃ run e₂, Hears file e.keeping answers error e₂ ∧ Retains run e₁ e₂ ∧
      (∀ x, error = some x → run = []) ∧
      (error = none → run = ((e.decided? source).map (lead ++ ·)).getD []) := by
  -- by what is heard; `lead` is what has been held back, and it grows along the hold steps only
  induction h generalizing source k lead with
  | @ended e hended =>
    refine ⟨[], _, .ended hended, ⟨rfl, Or.inl ⟨rfl, rfl⟩⟩, by simp, ?_⟩
    intro _
    rw [decided?, if_pos (Or.inl hended)]
    rfl
  | @fail e hmore x =>
    exact ⟨[], e.keeping, .fail (e := e.keeping) hmore x, retains_keeping e, by simp, by simp⟩
  | @stop e hmore =>
    obtain ⟨-, hpull⟩ := of_answers_eq_singleton hanswers
    refine ⟨[], _, .stop (e := e.keeping) hmore, ⟨rfl, Or.inl ⟨rfl, rfl⟩⟩, by simp, ?_⟩
    intro _
    rw [decided?, leading?_of_end hpull, ite_self]
    rfl
  | @hold e e₁ c answers error hmore hc hrest ih =>
    obtain ⟨k, rfl, hpull, hanswers⟩ := of_answers_eq_cons hanswers
    -- the character is held back in both, so the run that is decided about has it in front
    obtain ⟨run, e₂, hhears, hretains, herror, hrun⟩ :=
      ih (lead ++ [c]) hanswers (by simpa using hdrop) (by simp [hq])
    refine ⟨run, e₂, ?_, hretains, herror, ?_⟩
    · apply Hears.hold (e := e.keeping) hmore hc
      rw [keeping_holdBack]
      exact hhears
    · intro hnone
      rw [hrun hnone, decided?_of_holds hmore hc hpull, Option.map_map]
      simp [Function.comp_def]
  | @pass e c hmore hc =>
    obtain ⟨-, hpull⟩ := of_answers_eq_singleton hanswers
    -- a character that is handed out as it stands has no run before it
    refine ⟨[], _, .pass (e := e.keeping) hmore hc, ⟨?_, ?_⟩, by simp, ?_⟩
    · rw [keeping_arrive]
      rfl
    · rw [keeping_arrive]
      exact Or.inl ⟨rfl, rfl⟩
    · intro _
      rw [decided?_of_passes hc hpull]
      rfl
  | @level e c stack hmore hc hstack =>
    obtain ⟨-, hpull⟩ := of_answers_eq_singleton hanswers
    have hlevel : Hears file e.keeping [.ok (some c)] none
        (((e.keeping.arrive c).relevel stack).place (e.layout.marks e.depth stack.depth) c) :=
      .level (e := e.keeping) hmore
        ⟨hc.escapes_eq, hc.lineStart_eq, hc.notMem, hc.ne_newline⟩ hstack
    rw [keeping_arrive] at hlevel
    -- what was held back is dropped from the one queue and stays in the other
    refine ⟨lead, _, hlevel, ⟨rfl, Or.inr ⟨e.layout.marks e.depth stack.depth, c, ?_, ?_, ?_⟩⟩,
      by simp, ?_⟩
    · intro t ht
      exact Layout.role_of_mem_marks ht
    · have hdrop' : ((e.arrive c).relevel stack).layout.keepWhitespace = false := by
        show (e.arrive c).layout.keepWhitespace = false
        rwa [layout_arrive]
      simp [place, hdrop']
    · have hkeep : ((e.arrive c).keeping.relevel stack).layout.keepWhitespace = true := rfl
      have hqueue : ((e.arrive c).keeping.relevel stack).queue =
          (lead.map Token.content).map some := by
        show (e.arrive c).queue = _
        rw [queue_arrive, hq]
      simp [place, hkeep, hqueue]
    · intro _
      rw [decided?_of_decides hmore hc hpull]
      simp
  | @misfit e c hmore hc hstack =>
    -- the run stays queued in both, so nothing is to be put in
    have hmisfit : Hears file e.keeping [.ok (some c)]
        (some (.mismatch ((e.keeping.arrive c).mismatch file e.keeping.lead)))
        (e.keeping.arrive c) :=
      .misfit (e := e.keeping) hmore
        ⟨hc.escapes_eq, hc.lineStart_eq, hc.notMem, hc.ne_newline⟩ hstack
    rw [keeping_arrive] at hmisfit
    exact ⟨[], _, hmisfit, retains_keeping _, by simp, by simp⟩

end Engine

/-! ### Answers with whitespace put in -/

namespace Stream

open Engine CharSource

/-- What an answer becomes when a run is to be handed out before the next character of the text. -/
def woven (run : List CodePoint) : Except ReadError (Option Token) →
    List (Except ReadError (Option Token))
  | .ok (some t) =>
    if t.role = .content then run.map (fun c => .ok (some (.content c))) ++ [.ok (some t)]
    else [.ok (some t)]
  | other => [other]

/-- What is left of a run after an answer. -/
def owed (run : List CodePoint) : Except ReadError (Option Token) → List CodePoint
  | .ok (some t) => if t.role = .content then [] else run
  | _ => run

@[simp] theorem woven_nil (o : Except ReadError (Option Token)) : woven [] o = [o] := by
  unfold woven
  split
  · split <;> rfl
  · rfl

@[simp] theorem owed_nil (o : Except ReadError (Option Token)) : owed [] o = [] := by
  unfold owed
  split
  · split <;> rfl
  · rfl

section HandOut

variable {σ : Type} [CharSource σ] {s : Stream σ} {e' : Engine} {run : List CodePoint}

omit [CharSource σ] in
/-- If nothing is put in, the same is handed out. -/
theorem handOut_keeping (hp : s.engine.Pending) (hne : s.engine.queue ≠ []) :
    ({ s with engine := s.engine.keeping } : Stream σ).handOut.outcome = s.handOut.outcome ∧
      ({ s with engine := s.engine.keeping } : Stream σ).handOut.next =
        { s.handOut.next with engine := s.handOut.next.engine.keeping } := by
  let t : Stream σ := { s with engine := s.engine.keeping }
  show t.handOut.outcome = _ ∧ t.handOut.next = _
  rcases handOut_cases hp hne with ⟨x, rest, hq, hs, -⟩ | ⟨hq, -, hzero, hs⟩ |
    ⟨n, hq, -, hsucc, hs⟩
  · have ht : t.handOut = ⟨.ok (some x), t.handed x rest, []⟩ := handOut_of_queue_eq_cons hq
    rw [hs, ht]
    exact ⟨rfl, rfl⟩
  · -- the end of the input, with no level open
    have ht : t.handOut = ⟨.ok none, t.shift [], []⟩ := handOut_of_depth_eq_zero hq hzero
    rw [hs, ht]
    exact ⟨rfl, rfl⟩
  · -- the end of the input closes the innermost level
    have ht : t.handOut = ⟨.ok (some t.engine.dedentToken), t.flushed n, [.flush (n + 1)]⟩ :=
      handOut_of_depth_eq_succ hq hsucc
    rw [hs, ht]
    exact ⟨rfl, rfl⟩

/-- What is handed out has the whitespace put in. -/
theorem handOut_retains (hopen : s.closed = false) (h : Retains run s.engine e')
    (hp : s.engine.Pending) (hne : s.engine.queue ≠ []) :
    ∃ e₁, ({ s with engine := e' } : Stream σ).outcomes (woven run s.handOut.outcome).length =
        woven run s.handOut.outcome ∧
      ({ s with engine := e' } : Stream σ).after (woven run s.handOut.outcome).length =
        { s.handOut.next with engine := e₁ } ∧
      Retains (owed run s.handOut.outcome) s.handOut.next.engine e₁ := by
  let t : Stream σ := { s with engine := e' }
  show ∃ e₁, t.outcomes _ = _ ∧ t.after _ = _ ∧ _
  have heq := h.eq_keeping
  rcases h.putIn with ⟨rfl, hsame⟩ | ⟨marks, c, hmarks, hline, hline'⟩
  · -- nothing is put in: one answer stands for one
    obtain rfl : e' = s.engine.keeping := by
      rw [heq, hsame]
      rfl
    have ht : t.next = t.handOut := next_of_queue_ne_nil hopen hne
    obtain ⟨houtcome, hnext⟩ := handOut_keeping hp hne
    rw [woven_nil, owed_nil]
    show ∃ e₁, [t.next.outcome] = _ ∧ t.next.next = _ ∧ _
    rw [ht]
    exact ⟨_, congrArg (fun o => [o]) houtcome, hnext, retains_keeping _⟩
  · cases marks with
    | cons m marks =>
      -- a mark comes first in both queues
      have hs := handOut_of_queue_eq_cons (s := s) (t := m) hline
      have ht := next_of_queue_eq_cons (s := t) (t := m) hopen hline'
      have hrole : m.role ≠ .content := hmarks m List.mem_cons_self
      have hwoven : woven run (.ok (some m)) = [.ok (some m)] := if_neg hrole
      have howed : owed run (.ok (some m)) = run := if_neg hrole
      rw [hs, hwoven, howed]
      show ∃ e₁, [t.next.outcome] = _ ∧ t.next.next = _ ∧ _
      rw [ht]
      refine ⟨_, rfl, rfl, h.handed (Or.inr ⟨marks, c, ?_, rfl, rfl⟩) m⟩
      intro x hx
      exact hmarks x (List.mem_cons_of_mem m hx)
    | nil =>
      -- the run is handed out, and then the character that both queues end with
      have hs := handOut_of_queue_eq_cons (s := s)
        (show s.engine.queue = some (.content c) :: [] from hline)
      have hqueue : t.engine.queue =
          (run.map Token.content ++ [Token.content c]).map some ++ [] := by
        show e'.queue = _
        rw [hline']
        simp
      obtain ⟨houtcomes, hafter⟩ := outcomes_of_queue (s := t) hopen _ _ _ hqueue
      have hwoven : woven run (.ok (some (.content c))) =
          (run.map Token.content ++ [Token.content c]).map (fun t => .ok (some t)) := by
        simp [woven, Function.comp_def]
      have hlength : (woven run (.ok (some (.content c)))).length =
          (run.map Token.content).length + 1 := by
        rw [hwoven]
        simp
      rw [hs, hlength, houtcomes, hafter, ← hwoven]
      exact ⟨_, rfl, rfl, h.handed (Or.inl ⟨rfl, rfl⟩) (.content c)⟩

end HandOut

variable {σ : Type} [CharSource σ] {s : Stream σ} {e e' : Engine} {run : List CodePoint}
  {atLine : Bool}

theorem exists_length_woven (run : List CodePoint) (o : Except ReadError (Option Token)) :
    ∃ m, (woven run o).length = m + 1 := by
  unfold woven
  split
  · split
    · exact ⟨run.length, by simp⟩
    · exact ⟨0, rfl⟩
  · exact ⟨0, rfl⟩

/-- The whitespace of the line that a request decides about, as the analysis knows it. -/
theorem decided?_eq (hq : s.engine.queue = []) (htoken : tokensOf s.next.outcome ≠ [])
    (hline : s.engine.lineStart = atLine ∨ s.engine.exhausted = true) :
    s.decided? atLine = s.engine.decided? s.source := by
  rw [decided?, Engine.decided?, leading?]
  rcases hline with rfl | hended
  · cases s.engine.lineStart with
    | false => simp
    | true => simp [hq, htoken]
  · simp [hended]

/-- **A request is answered with the whitespace put in.** -/
theorem next_retains (hopen : s.closed = false) (hdrop : s.engine.layout.keepWhitespace = false)
    (h : Retains run s.engine e') (hp : s.engine.Pending)
    (hline : s.engine.lineStart = atLine ∨ s.engine.exhausted = true) :
    ∃ run' e₁, run' = (s.decided? atLine).getD run ∧
      ({ s with engine := e' } : Stream σ).outcomes (woven run' s.next.outcome).length =
        woven run' s.next.outcome ∧
      ({ s with engine := e' } : Stream σ).after (woven run' s.next.outcome).length =
        { s.next.next with engine := e₁ } ∧
      Retains (owed run' s.next.outcome) s.next.next.engine e₁ := by
  let t : Stream σ := { s with engine := e' }
  show ∃ run' e₁, _ ∧ t.outcomes _ = _ ∧ t.after _ = _ ∧ _
  rcases next_hears hopen with ⟨hne, hs⟩ | ⟨hq, k, error, e, told, hhears, hs⟩
  · -- the queue is not empty, so nothing is decided and what is owed stays the same
    obtain ⟨e₁, hretains⟩ := handOut_retains hopen h hp hne
    refine ⟨run, e₁, ?_, ?_⟩
    · rw [decided?, if_neg (by simp [hne])]
      rfl
    · rw [hs]
      exact hretains
  · -- both queues are empty, so nothing is owed from before
    obtain ⟨rfl, rfl⟩ := h.queue_eq_nil hq
    obtain ⟨run, e₂, hhears', hretains, herror, hrun⟩ :=
      hhears.keeping [] rfl hdrop hq
    obtain ⟨told', ht⟩ := next_of_hears (s := t) hopen hq hhears'
    cases error with
    | some x =>
      -- after an error nothing is put in: what was held back is queued in both
      obtain rfl := herror x rfl
      refine ⟨[], e₂, ?_, ?_⟩
      · rw [decided?, if_neg (by simp [hs, reply])]
        rfl
      · rw [woven_nil, owed_nil]
        show [t.next.outcome] = _ ∧ t.next.next = _ ∧ _
        rw [hs, ht]
        exact ⟨rfl, rfl, hretains⟩
    | none =>
      have hpending : (s.fed k e).engine.Pending := hhears.pending [] hq
      have hne : (s.fed k e).engine.queue ≠ [] := hhears.queue_ne_nil
      have hne' : (t.fed k e₂).engine.queue ≠ [] := hhears'.queue_ne_nil
      obtain ⟨e₁, houtcomes, hafter, hretains'⟩ :=
        handOut_retains (s := s.fed k e) hopen hretains hpending hne
      obtain ⟨m, hm⟩ := exists_length_woven run (s.fed k e).handOut.outcome
      -- the second stream is answered as if its queue had been filled before
      have hfilled : (t.fed k e₂).next = (t.fed k e₂).handOut := next_of_queue_ne_nil hopen hne'
      have hnext : t.next.outcome = (t.fed k e₂).next.outcome ∧
          t.next.next = (t.fed k e₂).next.next := by
        rw [ht, hfilled]
        exact ⟨rfl, rfl⟩
      obtain ⟨houtcomes', hafter'⟩ := outcomes_congr hnext.1 hnext.2 m
      have houtcome : s.next.outcome = (s.fed k e).handOut.outcome := by
        rw [hs]
        rfl
      refine ⟨run, e₁, ?_, ?_, ?_, ?_⟩
      · by_cases htoken : tokensOf s.next.outcome = []
        · -- without a token nothing was decided
          rw [decided?, if_neg (by simp [htoken])]
          rw [houtcome] at htoken
          rcases handOut_cases hpending hne with ⟨x, rest, -, hout, -⟩ | ⟨hnone, -⟩ |
            ⟨n, -, -, -, hout⟩
          · simp [hout] at htoken
          · rcases hretains.putIn with ⟨hnil, -⟩ | ⟨marks, c, -, hqueue, -⟩
            · exact hnil
            · -- what the run would be put into ends with a character, and the queue is at its end
              have hsome : e.queue = [none] := hnone
              have hmem : (none : Option Token) ∈ (marks ++ [Token.content c]).map some := by
                rw [← hqueue, hsome]
                exact List.mem_singleton_self _
              simp at hmem
          · simp [hout] at htoken
        · rw [decided?_eq hq htoken hline, hrun rfl]
          simp
      · rw [houtcome, hm, houtcomes', ← hm]
        exact houtcomes
      · rw [houtcome, hm, hafter', ← hm, hs]
        exact hafter
      · rw [houtcome, hs]
        exact hretains'

omit [CharSource σ] in
/-- Whether a line starts is seen from what is handed out, until the input has ended. -/
theorem startsLine_handOut (hp : s.engine.Pending) (hne : s.engine.queue ≠ []) (atLine : Bool) :
    s.handOut.next.engine.lineStart =
        startsLine s.engine.layout.newline atLine s.handOut.outcome ∨
      s.handOut.next.engine.exhausted = true := by
  rcases handOut_cases hp hne with ⟨t, rest, -, hs, -⟩ | ⟨-, hended, -, hs⟩ | ⟨n, -, hended, -, hs⟩
  · rw [hs]
    exact Or.inl rfl
  · rw [hs]
    exact Or.inr hended
  · rw [hs]
    exact Or.inr hended

theorem startsLine_next (hopen : s.closed = false) (hp : s.engine.Pending)
    (hline : s.engine.lineStart = atLine ∨ s.engine.exhausted = true) :
    s.next.next.engine.lineStart = startsLine s.engine.layout.newline atLine s.next.outcome ∨
      s.next.next.engine.exhausted = true := by
  rcases next_hears hopen with ⟨hne, hs⟩ | ⟨hq, k, error, e, told, hhears, hs⟩
  · rw [hs]
    exact startsLine_handOut hp hne atLine
  · rw [hs]
    cases error with
    | some x =>
      -- an error says nothing about lines, and hearing leaves the start of a line alone
      rcases hline with hstart | hended
      · exact Or.inl (hhears.lineStart_eq.trans hstart)
      · exact Or.inr (hhears.exhausted_of_exhausted hended).2
    | none =>
      have hpending : (s.fed k e).engine.Pending := hhears.pending [] hq
      have hout := startsLine_handOut hpending hhears.queue_ne_nil atLine
      have hlayout : (s.fed k e).engine.layout = s.engine.layout := hhears.layout_eq
      rw [hlayout] at hout
      exact hout

/-- The answers to some requests, with the whitespace of each line that is decided about put in
behind the marks of the line.  Whether a line starts is seen from the answers before. -/
def withRuns (s : Stream σ) (atLine : Bool) (run : List CodePoint) :
    Nat → List (Except ReadError (Option Token))
  | 0 => []
  | n + 1 =>
    let run := (s.decided? atLine).getD run
    woven run s.next.outcome ++
      s.next.next.withRuns (startsLine s.engine.layout.newline atLine s.next.outcome)
        (owed run s.next.outcome) n

/-- **Keeping whitespace puts it in**, and changes nothing else. -/
theorem after_withRuns (n : Nat) (hopen : s.closed = false)
    (hdrop : s.engine.layout.keepWhitespace = false) (h : Retains run s.engine e')
    (hp : s.engine.Pending) (hline : s.engine.lineStart = atLine ∨ s.engine.exhausted = true) :
    ∃ run' e₁,
      ({ s with engine := e' } : Stream σ).outcomes (s.withRuns atLine run n).length =
        s.withRuns atLine run n ∧
      ({ s with engine := e' } : Stream σ).after (s.withRuns atLine run n).length =
        { s.after n with engine := e₁ } ∧
      Retains run' (s.after n).engine e₁ := by
  induction n generalizing s e' run atLine with
  | zero => exact ⟨run, e', rfl, rfl, h⟩
  | succ n ih =>
    obtain ⟨run₁, e₁, hrun, houtcomes, hafter, hretains⟩ := next_retains hopen hdrop h hp hline
    obtain ⟨-, -, -, hopen'⟩ := next_frame hopen
    have hdrop' : s.next.next.engine.layout.keepWhitespace = false := by
      rwa [layout_next hopen]
    obtain ⟨run₂, e₂, houtcomes', hafter', hretains'⟩ :=
      ih hopen' hdrop' hretains (pending_next hopen hp) (startsLine_next hopen hp hline)
    refine ⟨run₂, e₂, ?_, ?_, hretains'⟩
    · rw [withRuns, ← hrun, List.length_append, outcomes_add, houtcomes, hafter, houtcomes']
    · rw [withRuns, ← hrun, List.length_append, after_add, hafter, hafter']
      rfl

/-! ### Both -/

/-- **Neither the marks nor whether whitespace is kept matters for the analysis**, whatever the
source is.  With any two characters for the marks, the analysis has found the same after every
request, as much is at hand, and the next answer is the same with its mark spelled by the one
character or the other.  If the whitespace is kept, the answers are those of the stream that drops
it, with the whitespace of each line put in behind the marks of the line, and the analysis has
found the same. -/
theorem sameAnalysis_after (source : σ) (name : Option String) (l : Layout) (rules : List Rule)
    (n : Nat) :
    (∀ a b : CodePoint,
      let s := (start source name l rules).after n
      let t := (start source name { l with indentMark := a, dedentMark := b } rules).after n
      SameAnalysis s.engine t.engine ∧ t.available = s.available ∧
        t.next.outcome = s.next.outcome.map (Option.map (Token.respell a b))) ∧
      let s := start source name { l with keepWhitespace := false } rules
      let t := start source name { l with keepWhitespace := true } rules
      let answers := s.withRuns true [] n
      t.outcomes answers.length = answers ∧
        SameAnalysis (s.after n).engine (t.after answers.length).engine := by
  constructor
  · -- the marks: the two analyses go on to differ in them alone
    intro a b s t
    obtain ⟨e', heq, hrespelled, hpending⟩ := after_respelled source name l rules a b n
    have ht : t = { s with engine := e' } := heq
    have hopen : s.closed = false := (name_after rfl n).2
    obtain ⟨houtcome, -⟩ := next_respelled hopen hpending hrespelled
    rw [ht]
    refine ⟨hrespelled.sameAnalysis, ?_, houtcome⟩
    -- as much is queued on both sides
    have hqueue : e'.queue = s.engine.queue.map (Option.map (Token.respell a b)) :=
      hrespelled.queue_eq
    unfold available
    simp [hqueue]
  · -- the whitespace: what is put in is owed, and what is owed is handed out
    intro s t answers
    have hline : s.engine.lineStart = true ∨ s.engine.exhausted = true := Or.inl rfl
    obtain ⟨run, e₁, houtcomes, hafter, hretains⟩ :=
      after_withRuns (s := s) n rfl rfl (retains_keeping _) (.empty rfl) hline
    refine ⟨houtcomes, ?_⟩
    have ht : t.after answers.length = { s.after n with engine := e₁ } := hafter
    rw [ht]
    exact hretains.sameAnalysis

end Stream

end Offside
