import Offside.Proofs.Marks

/-!
# What the stack spells

At all times before the marks of the end are handed out, the open levels spell the leading
whitespace of the last line that was decided about.  Whoever wants to know this whitespace need not
look at the levels: a line starts when a newline has been handed out, and its whitespace is what
the source has before the first character that is neither whitespace nor escaped.  If no such
character comes before the line ends, or if the source fails, nothing is decided.

So lines with the same whitespace have no mark between them, whatever else is between them.

## Main definitions

* `CharSource.leading?` — the whitespace before the first other character of a line.
* `Stream.Flushes` — a request hands out the first mark of the end.
* `Watch` — what is known to whoever follows the requests.
* `Stream.Answers` — what a request does to the levels and to the marks.

## Main results

* `Stream.answers_next` — what every request does.
* `Stream.run_spells` — **the levels spell the last whitespace**, at all times.
-/

namespace Offside

section Watch

variable {σ : Type} [CharSource σ]

/-! ### The whitespace of a line -/

/-- The whitespace that the rest of a line starts with, if the character behind it is neither
escaped nor the end of the line. -/
def CharSource.leading? (l : Layout) (t : Tracker) (source : σ) : Option (List CodePoint) :=
  match _h : CharSource.pull source with
  | ⟨.ok (some c), source', _⟩ =>
    if t.escapes c then none
    else if c ∈ l.whitespace then (leading? l t source').map (c :: ·)
    else if c = l.newline then none
    else some []
  | _ => none
termination_by CharSource.remaining source
decreasing_by
  have hlt := CharSource.remaining_lt source c (by rw [_h])
  rwa [_h] at hlt

namespace Stream

variable {s s' t : Stream σ} {c : CodePoint} {notices : List Notice}
  {outcome : Except ReadError (Option Token)} {lead : List CodePoint}

/-- The whitespace that the rest of a line starts with, if it is followed by what decides about the
line. -/
def leading? (s : Stream σ) : Option (List CodePoint) :=
  if s.engine.exhausted then none
  else CharSource.leading? s.engine.layout s.engine.tracker s.source

theorem leading?_of_pull (h : s.pull = ⟨.ok (some c), s', notices⟩) :
    s.leading? =
      if s.engine.escapes c then none
      else if c ∈ s.engine.layout.whitespace then (s'.hold c).leading?.map (c :: ·)
      else if c = s.engine.layout.newline then none
      else some [] := by
  unfold pull at h
  split at h
  · simp at h
  · next hmore =>
    split at h
    · simp at h
    · next d source' told hpull =>
      obtain ⟨rfl, rfl, -⟩ : _ ∧ _ ∧ _ := by simpa using h
      have hmore' : ((s.engine.arrive d).enqueue (some (.content d))).exhausted = false := by
        simpa [Engine.enqueue] using hmore
      rw [leading?, if_neg hmore, CharSource.leading?, hpull]
      simp [leading?, hold, Engine.escapes, Engine.enqueue, hmore]
    · simp at h

theorem leading?_of_pull_none (h : s.pull = ⟨.ok none, s', notices⟩) : s.leading? = none := by
  unfold pull at h
  rw [leading?]
  split at h
  · next hended => rw [if_pos hended]
  · next hmore =>
    rw [if_neg hmore]
    split at h
    · next hpull => rw [CharSource.leading?, hpull]
    · simp at h
    · simp at h

/-! ### What is known from outside -/

/-- A request finds that the input has ended, and hands out the first mark of the levels that are
still open. -/
def Flushes (s : Stream σ) : Prop :=
  s.closed = false ∧ 0 < s.engine.depth ∧
    (s.engine.queue.head? = some none ∨
      (s.engine.queue = [] ∧ s.pull.outcome.toOption = some none))

instance (s : Stream σ) : Decidable s.Flushes :=
  inferInstanceAs (Decidable (_ ∧ _ ∧ (_ ∨ (_ ∧ _))))

/-- Whether a line starts after an answer. -/
def startsLine (newline : CodePoint) (before : Bool) : Except ReadError (Option Token) → Bool
  | .ok (some x) => x.char = newline
  | _ => before

/-- The whitespace of the line that a request decides about, if it does. -/
def decided? (s : Stream σ) (atLine : Bool) : Option (List CodePoint) :=
  if atLine = true ∧ s.engine.queue = [] ∧ tokensOf s.next.outcome ≠ [] then s.leading? else none

end Stream

/-- What is known to whoever follows the requests to a stream. -/
structure Watch where
  /-- Whether a line starts. -/
  atLine : Bool := true
  /-- The whitespace of the lines that were decided about. -/
  runs : List (List CodePoint) := []
  /-- Whether the marks of the end have come. -/
  flushed : Bool := false

namespace Watch

/-- What is known after one more request. -/
def after (w : Watch) (s : Stream σ) : Watch where
  atLine := Stream.startsLine s.engine.layout.newline w.atLine s.next.outcome
  runs := w.runs ++ (s.decided? w.atLine).toList
  flushed := w.flushed || s.Flushes

/-- What is known after some requests. -/
def through (w : Watch) (turns : List (Stream σ)) : Watch := turns.foldl after w

/-- The whitespace of the last line. -/
def last (w : Watch) : List CodePoint := w.runs.getLastD []

theorem through_append (w : Watch) (turns more : List (Stream σ)) :
    w.through (turns ++ more) = (w.through turns).through more := List.foldl_append

end Watch

end Watch

/-- The marks among some tokens. -/
def Token.marks (tokens : List Token) : List Token := tokens.filter (·.role ≠ .content)

theorem Token.marks_append (tokens more : List Token) :
    Token.marks (tokens ++ more) = Token.marks tokens ++ Token.marks more := List.filter_append ..

@[simp] theorem Token.marks_map_content (cs : List CodePoint) :
    Token.marks (cs.map Token.content) = [] := by
  simp [Token.marks]

namespace Stream

open Engine

section Release

variable {σ : Type} {s t : Stream σ} {outcome : Except ReadError (Option Token)}

/-! ### What a request does -/

/-- What a request does to the levels and to the marks that are due, if it decides about a line with
the whitespace `run?` or about none. -/
structure Answers (s : Stream σ) (run? : Option (List CodePoint))
    (outcome : Except ReadError (Option Token)) (t : Stream σ) : Prop where
  lineStart_eq : t.engine.lineStart =
    startsLine s.engine.layout.newline s.engine.lineStart outcome
  indentation_eq : t.engine.stack.indentation = run?.getD s.engine.stack.indentation
  marks_eq : (∀ run ∈ run?, run = s.engine.stack.indentation) →
    Token.marks (tokensOf outcome ++ t.engine.due) = Token.marks s.engine.due

/-- What has been let out is handed out, and the levels are as they were when it was let out. -/
theorem answers_handOut {u : Stream σ} {run? : Option (List CodePoint)} {x : Token}
    {rest : List (Option Token)} (hqueue : u.engine.queue = some x :: rest)
    (hlayout : u.engine.layout = s.engine.layout)
    (hindentation : u.engine.stack.indentation = run?.getD s.engine.stack.indentation)
    (hmarks : (∀ run ∈ run?, run = s.engine.stack.indentation) →
      Token.marks u.engine.due = Token.marks s.engine.due) :
    Answers s run? u.handOut.outcome u.handOut.next := by
  have hdue : u.engine.due = [x] ++ rest.reduceOption := by
    rw [due, hqueue, List.reduceOption_cons_of_some]
    rfl
  rw [handOut_of_queue_eq_cons hqueue]
  refine ⟨?_, hindentation, ?_⟩
  · rw [startsLine, ← hlayout]
    rfl
  · intro hrun
    rw [← hmarks hrun, hdue]
    rfl

/-- An answer without a token leaves the levels and the marks alone. -/
theorem answers_of_tokensOf_eq_nil (hnone : tokensOf outcome = [])
    (hstack : t.engine.stack = s.engine.stack) (hline : t.engine.lineStart = s.engine.lineStart)
    (hdue : t.engine.due = s.engine.due) : Answers s none outcome t := by
  refine ⟨?_, by rw [hstack]; rfl, fun _ => by rw [hnone, hdue]; rfl⟩
  rw [hline]
  match outcome with
  | .ok (some x) => simp at hnone
  | .ok none => rfl
  | .error x => rfl

/-- An answer is the same for a stream with the same levels and marks. -/
theorem Answers.congr {s₁ : Stream σ} {run? : Option (List CodePoint)}
    (h : Answers s₁ run? outcome t) (hlayout : s₁.engine.layout = s.engine.layout)
    (hline : s₁.engine.lineStart = s.engine.lineStart)
    (hstack : s₁.engine.stack = s.engine.stack)
    (hmarks : Token.marks s₁.engine.due = Token.marks s.engine.due) :
    Answers s run? outcome t where
  lineStart_eq := by rw [h.lineStart_eq, hlayout, hline]
  indentation_eq := by rw [h.indentation_eq, hstack]
  marks_eq hrun := by
    rw [← hstack] at hrun
    rw [h.marks_eq hrun, hmarks]

/-- A line that fits has its run spelled by the levels, and nothing is marked if they spelled it
before. -/
theorem release_of_decides_lead {e₀ e : Engine} {name : Option String} {c : CodePoint}
    {lead : List CodePoint}
    {told : List Notice} (hdecides : e₀.Decides c) (hdue : e₀.due = lead.map Token.content)
    (he : e₀.release name c = .ok (e, told)) :
    e.layout = e₀.layout ∧ e.stack.indentation = lead ∧
      (lead = e₀.stack.indentation → Token.marks e.due = []) := by
  have hlead : e₀.lead = lead := by
    rw [Engine.lead, hdue]
    simp [Token.text, Function.comp_def]
  rw [release_of_decides hdecides, settle_eq, hlead] at he
  cases hadvance : e₀.stack.advance? lead with
  | none => simp [hadvance] at he
  | some stack =>
    obtain ⟨rfl, -⟩ : _ ∧ _ := by simpa [hadvance] using he
    refine ⟨rfl, Stack.indentation_of_advance? hadvance, ?_⟩
    intro hsame
    rw [hsame, Stack.advance?_of_prefix (List.prefix_refl _), Option.some.injEq] at hadvance
    have hnone : e₀.layout.marks e₀.depth stack.depth = [] := by
      rw [← hadvance]
      exact e₀.layout.marks_self _
    have hrelevel : (e₀.relevel stack).due = e₀.due := rfl
    rw [due_place, hnone, hrelevel, hdue]
    cases (e₀.relevel stack).layout.keepWhitespace with
    | false => rfl
    | true => simpa using Token.marks_map_content (lead ++ [c])

end Release

variable {σ : Type} [CharSource σ] {s s' t : Stream σ} {c : CodePoint} {notices : List Notice}
  {outcome : Except ReadError (Option Token)} {lead : List CodePoint}

/-- The run that a request decides about, when `lead` has been held back. -/
def decidedBehind? (s : Stream σ) (lead : List CodePoint)
    (outcome : Except ReadError (Option Token)) :
    Option (List CodePoint) :=
  if s.engine.lineStart = true ∧ tokensOf outcome ≠ [] then s.leading?.map (lead ++ ·) else none

theorem decidedBehind?_of_leading? (h : s.leading? = none) :
    s.decidedBehind? lead outcome = none := by
  rw [decidedBehind?, h, Option.map_none, ite_self]

/-- The end of the input lets out what was held back. -/
theorem answers_stop (hpull : s.pull = ⟨.ok none, s', notices⟩)
    (hq : s.engine.queue = (lead.map Token.content).map some)
    (hflush : 0 < s.engine.depth → lead = [] → s.pull.outcome.toOption ≠ some none) :
    Answers s none { s' with engine := s'.engine.enqueue none }.handOut.outcome
      { s' with engine := s'.engine.enqueue none }.handOut.next := by
  have hqueue : s'.engine.queue = (lead.map Token.content).map some := by
    rw [queue_of_pull hpull, hq]
  obtain ⟨hlayout, hstack, hline⟩ : s'.engine.layout = s.engine.layout ∧
      s'.engine.stack = s.engine.stack ∧ s'.engine.lineStart = s.engine.lineStart := by
    rcases engine_of_pull_none hpull with h | h <;> rw [h] <;> exact ⟨rfl, rfl, rfl⟩
  cases lead with
  | nil =>
    have hdepth : s'.engine.depth = 0 := by
      rw [Engine.depth, hstack]
      by_contra hpos
      exact hflush (Nat.pos_of_ne_zero hpos) rfl (by rw [hpull]; rfl)
    let u : Stream σ := { s' with engine := s'.engine.enqueue none }
    have hended : u.engine.queue = [none] := congrArg (· ++ [none]) hqueue
    change Answers s none u.handOut.outcome u.handOut.next
    rw [handOut_of_depth_eq_zero hended hdepth]
    exact answers_of_tokensOf_eq_nil rfl hstack hline (by simp [due, shift, hq])
  | cons c lead =>
    have hlead : ({ s' with engine := s'.engine.enqueue none } : Stream σ).engine.queue =
        some (.content c) :: ((lead.map Token.content).map some ++ [none]) := by
      simp [Engine.enqueue, hqueue]
    refine answers_handOut hlead hlayout (congrArg Stack.indentation hstack) ?_
    intro _
    rw [due, due, Engine.enqueue, hqueue, hq, List.reduceOption_append]
    simp [List.reduceOption]

theorem exists_of_queue_eq_map {e : Engine} {out : List Token} {last : Token}
    (h : e.queue = (out ++ [last]).map some) : ∃ x rest, e.queue = some x :: rest := by
  cases out with
  | nil => exact ⟨_, _, h⟩
  | cons x out => exact ⟨_, _, h⟩

/-- A character that is let out as it was read decides about nothing. -/
theorem decidedBehind?_of_passes (hpull : s.pull = ⟨.ok (some c), s', notices⟩)
    (h : s.engine.Passes c) : s.decidedBehind? lead outcome = none := by
  have hleading := leading?_of_pull hpull
  rcases h with hesc | hline | ⟨hnl, hspace⟩
  · exact decidedBehind?_of_leading? (by rw [hleading, if_pos hesc])
  · rw [decidedBehind?, hline]
    simp
  · exact decidedBehind?_of_leading? (by rw [hleading, if_neg hspace, if_pos hnl, ite_self])

/-- A character that decides does so about the run that has been held back. -/
theorem decidedBehind?_of_decides (hpull : s.pull = ⟨.ok (some c), s', notices⟩)
    (h : s.engine.Decides c) (htoken : tokensOf outcome ≠ []) :
    s.decidedBehind? lead outcome = some lead := by
  rw [decidedBehind?, if_pos ⟨h.lineStart_eq, htoken⟩, leading?_of_pull hpull, h.escapes_eq,
    if_neg Bool.false_ne_true, if_neg h.notMem, if_neg h.ne_newline]
  simp

/-- A character that has arrived lets out what was held back. -/
theorem answers_release {e : Engine} {told : List Notice}
    (hpull : s.pull = ⟨.ok (some c), s', notices⟩)
    (hq : s.engine.queue = (lead.map Token.content).map some)
    (hc : ¬ s'.engine.holds c = true) (he : s'.engine.release s'.name c = .ok (e, told)) :
    Answers s
      (s.decidedBehind? lead { s' with engine := e }.handOut.outcome)
      { s' with engine := e }.handOut.outcome { s' with engine := e }.handOut.next := by
  have hengine := (engine_of_pull hpull).1
  have hlayout : s'.engine.layout = s.engine.layout := by rw [hengine, layout_arrive]
  have hstack : s'.engine.stack = s.engine.stack := by rw [hengine, stack_arrive]
  have hqueue : s'.engine.queue = (lead.map Token.content).map some := by
    rw [queue_of_pull hpull, hq]
  have hdue : s'.engine.due = lead.map Token.content := due_of_queue_eq_map hqueue
  have hmarks : Token.marks s.engine.due = [] := by
    rw [due_of_queue_eq_map hq, Token.marks_map_content]
  obtain ⟨out, hout⟩ := queue_of_release (by rw [hdue, hqueue]) he
  obtain ⟨x, rest, hcons⟩ := exists_of_queue_eq_map hout
  rw [hengine, holds_arrive] at hc
  rcases passes_or_decides hc with hpass | hdecides
  · -- the line is not decided about: nothing is opened or closed
    rw [decidedBehind?_of_passes hpull hpass]
    have hpass' : s'.engine.Passes c := by rwa [hengine, passes_arrive]
    rw [release_of_passes hpass'] at he
    obtain ⟨rfl, -⟩ : _ ∧ _ := by simpa using he
    refine answers_handOut hcons hlayout (congrArg Stack.indentation hstack) ?_
    intro _
    have hobserve : (s'.engine.observe c).due = s'.engine.due := rfl
    rw [hmarks, due_enqueue_some, hobserve, hdue, Token.marks_append, Token.marks_map_content]
    rfl
  · -- the line is decided about, and its level is spelled by what was held back
    have htoken : tokensOf ({ s' with engine := e } : Stream σ).handOut.outcome ≠ [] := by
      rw [handOut_of_queue_eq_cons hcons, tokensOf_some]
      simp
    rw [decidedBehind?_of_decides hpull hdecides htoken]
    have hdecides' : s'.engine.Decides c := by
      rw [hengine]
      exact hdecides.arrive c
    obtain ⟨hlayout', hindentation, hmarks'⟩ := release_of_decides_lead hdecides' hdue he
    refine answers_handOut hcons (hlayout'.trans hlayout) hindentation ?_
    intro hrun
    rw [hmarks, hmarks' (by rw [hstack]; exact hrun lead rfl)]

/-- **What a request does**, when `lead` has been held back. -/
theorem Request.answers (hreq : Request s outcome t)
    (hq : s.engine.queue = (lead.map Token.content).map some)
    (hflush : 0 < s.engine.depth → lead = [] → s.pull.outcome.toOption ≠ some none) :
    Answers s (s.decidedBehind? lead outcome) outcome t := by
  -- on what the request takes; `lead` grows by each character that is held back
  induction hreq generalizing lead with
  | @fail s s' x notices hpull =>
    have hengine := engine_of_pull_error hpull
    have hnone : s.decidedBehind? lead (.error x) = none := by simp [decidedBehind?]
    rw [hnone]
    exact answers_of_tokensOf_eq_nil rfl (by rw [hengine]) (by rw [hengine]) (by rw [hengine])
  | stop hpull =>
    rw [decidedBehind?_of_leading? (leading?_of_pull_none hpull)]
    exact answers_stop hpull hq hflush
  | @hold s s' u c notices outcome hpull hc hrest ih =>
    have hengine := (engine_of_pull hpull).1
    rw [hengine, holds_arrive, holds_iff] at hc
    obtain ⟨hesc, hline, hspace⟩ := hc
    have hholding : (s'.hold c).engine = (s.engine.arrive c).enqueue (some (.content c)) := by
      rw [Stream.hold, hengine]
    have hline' : (s'.hold c).engine.lineStart = s.engine.lineStart := by
      rw [hholding]
      exact s.engine.lineStart_arrive c
    -- with the character held back the same run is decided
    have hbehind : s.decidedBehind? lead outcome =
        (s'.hold c).decidedBehind? (lead ++ [c]) outcome := by
      rw [decidedBehind?, decidedBehind?, leading?_of_pull hpull, hline', hesc,
        if_neg Bool.false_ne_true, if_pos hspace, Option.map_map]
      simp [Function.comp_def]
    have hanswers : Answers (s'.hold c) ((s'.hold c).decidedBehind? (lead ++ [c]) outcome)
        outcome u := by
      apply ih
      · rw [hholding]
        simp [Engine.enqueue, hq]
      · intro _ hnil
        simp at hnil
    rw [hbehind]
    refine hanswers.congr (by rw [hholding]; exact s.engine.layout_arrive c) hline'
      (by rw [hholding]; exact s.engine.stack_arrive c) ?_
    rw [hholding, due_enqueue_some, due_arrive, due_of_queue_eq_map hq, Token.marks_append]
    exact List.append_nil _
  | release hpull hc he => exact answers_release hpull hq hc he
  | @misfit s s' c notices x hpull hc hx =>
    have hengine := (engine_of_pull hpull).1
    have hnone : s.decidedBehind? lead (.error x) = none := by simp [decidedBehind?]
    rw [hnone]
    exact answers_of_tokensOf_eq_nil rfl (by simp [hengine]) (by simp [hengine]) (by simp [hengine])

/-- **What every request does** before the end. -/
theorem answers_next (hflush : ¬ s.Flushes) :
    Answers s (s.decided? s.engine.lineStart) s.next.outcome s.next.next := by
  by_cases hclosed : s.closed = true
  · rw [decided?, next_of_closed hclosed, if_neg (by simp)]
    exact answers_of_tokensOf_eq_nil rfl rfl rfl rfl
  · rw [Bool.not_eq_true] at hclosed
    cases hqueue : s.engine.queue with
    | nil =>
      have hreq : Request s s.next.outcome s.next.next := by
        rw [next_eq_request hclosed hqueue]
        exact s.request_request
      have hdecided : s.decided? s.engine.lineStart = s.decidedBehind? [] s.next.outcome := by
        simp [decided?, decidedBehind?, hqueue]
      rw [hdecided]
      refine hreq.answers hqueue ?_
      intro hdepth _ hended
      exact hflush ⟨hclosed, hdepth, Or.inr ⟨hqueue, hended⟩⟩
    | cons entry rest =>
      have hne : s.engine.queue ≠ [] := by simp [hqueue]
      rw [decided?, if_neg (by simp [hqueue]), next_of_queue_ne_nil hclosed hne]
      cases entry with
      | some x => exact answers_handOut hqueue rfl rfl fun _ => rfl
      | none =>
        have hdepth : s.engine.depth = 0 := by
          by_contra hpos
          exact hflush ⟨hclosed, Nat.pos_of_ne_zero hpos, Or.inl (by rw [hqueue]; rfl)⟩
        rw [handOut_of_depth_eq_zero hqueue hdepth]
        refine answers_of_tokensOf_eq_nil rfl rfl rfl ?_
        rw [due, due, hqueue, List.reduceOption_cons_of_none]
        rfl

end Stream

/-! ### At all times -/

namespace Watch

variable {σ : Type} [CharSource σ] {w : Watch} {s : Stream σ}

/-- What is known of a stream is true of its analysis. -/
structure Matches (w : Watch) (s : Stream σ) : Prop where
  lineStart_eq : s.engine.lineStart = w.atLine
  indentation_eq : s.engine.stack.indentation = w.last

theorem last_after (w : Watch) (s : Stream σ) :
    (w.after s).last = (s.decided? w.atLine).getD w.last := by
  rw [last, after]
  cases s.decided? w.atLine with
  | none => simp [last]
  | some run => simp

theorem Matches.after (h : w.Matches s) (hflush : ¬ s.Flushes) :
    (w.after s).Matches s.next.next where
  lineStart_eq := by rw [(Stream.answers_next hflush).lineStart_eq, h.lineStart_eq]; rfl
  indentation_eq := by
    rw [(Stream.answers_next hflush).indentation_eq, last_after, h.lineStart_eq, h.indentation_eq]

theorem flushed_of_through {turns : List (Stream σ)} (h : (w.through turns).flushed = false) :
    w.flushed = false := by
  induction turns generalizing w with
  | nil => exact h
  | cons s turns ih =>
    have hafter : (w.after s).flushed = false := ih h
    exact (Bool.or_eq_false_iff.1 hafter).1

/-- More lines with the whitespace of the last one do not change what that is. -/
theorem last_of_forall {v : Watch} {more : List (List CodePoint)} (hruns : v.runs = w.runs ++ more)
    (h : ∀ run ∈ more, run = w.last) : v.last = w.last := by
  rw [last, hruns]
  induction more using List.reverseRecOn with
  | nil => rw [List.append_nil, last]
  | append_singleton more run _ =>
    rw [← List.append_assoc, List.getLastD_concat]
    exact h run (by simp)

end Watch

namespace Stream

variable {σ : Type} [CharSource σ]

/-- What is known after some operations to whoever follows them from the start of a line. -/
def watch (s : Stream σ) (ops : List Operation) : Watch := ({} : Watch).through (s.turnsIn ops)

/-- What holds after some requests to a stream that is known by `w` as long as no marks of the end
have come: the new runs are known, and if they are all that of the last line, no mark is new. -/
structure Follows (w : Watch) (s : Stream σ) (past : List (Stream σ)) (t : Stream σ) : Prop where
  known : (w.through past).Matches t
  marks : ∃ more, (w.through past).runs = w.runs ++ more ∧
    ((∀ run ∈ more, run = w.last) →
      Token.marks (handedOut past ++ t.engine.due) = Token.marks s.engine.due)

theorem journal_follows (w : Watch) (s : Stream σ) :
    Journal (fun _ => True)
      fun past t => (w.through past).flushed = false → Follows w s past t where
  next {past t} h hflushed := by
    rw [Watch.through_append] at hflushed
    have hflushed' : ((w.through past).flushed || decide t.Flushes) = false := hflushed
    obtain ⟨hbefore, hnow⟩ := Bool.or_eq_false_iff.1 hflushed'
    have hflush : ¬ t.Flushes := of_decide_eq_false hnow
    obtain ⟨hmatches, more, hruns, hmarks⟩ := h hbefore
    have hanswers := answers_next hflush
    rw [hmatches.lineStart_eq] at hanswers
    refine ⟨?_, more ++ (t.decided? (w.through past).atLine).toList, ?_, ?_⟩
    · rw [Watch.through_append]
      exact hmatches.after hflush
    · rw [Watch.through_append, ← List.append_assoc, ← hruns]
      rfl
    · intro hsame
      -- if all new runs are that of the last line, so are those before this request
      have hold : ∀ run ∈ more, run = w.last := fun run hrun => hsame run (by simp [hrun])
      have hnew : ∀ run ∈ t.decided? (w.through past).atLine, run = t.engine.stack.indentation := by
        intro run hrun
        rw [hmatches.indentation_eq, Watch.last_of_forall hruns hold]
        exact hsame run (by simp [Option.mem_def.1 hrun])
      have hturn : handedOut (past ++ [t]) = handedOut past ++ tokensOf t.next.outcome := by
        simp [handedOut]
      rw [hturn, List.append_assoc, Token.marks_append, hanswers.marks_eq hnew,
        ← Token.marks_append, hmarks hold]
  close b h hflushed := ⟨⟨(h hflushed).known.lineStart_eq, (h hflushed).known.indentation_eq⟩,
    (h hflushed).marks⟩
  adopt {past t convention} _ h hflushed := by
    obtain ⟨l, tracker, heq⟩ := t.engine.alike_adopt convention
    rw [heq]
    exact ⟨⟨(h hflushed).known.lineStart_eq, (h hflushed).known.indentation_eq⟩,
      (h hflushed).marks⟩

variable {w : Watch} {s : Stream σ}

theorem turnsIn_append (s : Stream σ) (ops more : List Operation) :
    s.turnsIn (ops ++ more) = s.turnsIn ops ++ (s.run ops).2.turnsIn more := by
  induction ops generalizing s with
  | nil => rfl
  | cons op ops ih => rw [List.cons_append, turnsIn, turnsIn, ih, List.append_assoc]; rfl

/-- What is known of a stream stays true whatever is done to it. -/
theorem follows_run (h : w.Matches s) (ops : List Operation)
    (hflushed : (w.through (s.turnsIn ops)).flushed = false) :
    Follows w s (s.turnsIn ops) (s.run ops).2 := by
  have hstart : Follows w s [] s := ⟨h, [], by simp [Watch.through], fun _ => by simp [handedOut]⟩
  exact (journal_follows w s).run (fun _ => hstart) (fun op _ => op.within_true) hflushed

/-- **The levels spell the whitespace of the last line** that was decided about, at all times
before the marks of the end.  So as long as all lines have the whitespace of the last one, the only
marks are those that were due. -/
theorem run_spells (source : σ) (name : Option String) (l : Layout) (rules : List Rule)
    (ops more : List Operation) :
    let s := start source name l rules
    let t := (s.run ops).2
    (∀ level ∈ t.engine.stack.levels, level.run ≠ []) ∧
      ((s.watch ops).flushed = false → t.engine.stack.indentation = (s.watch ops).last) ∧
      ((s.watch (ops ++ more)).flushed = false →
        (∀ run ∈ (s.watch (ops ++ more)).runs.drop (s.watch ops).runs.length,
          run = (s.watch ops).last) →
        Token.marks ((t.run more).1 ++ (t.run more).2.engine.due) = Token.marks t.engine.due) := by
  intro s t
  have hstart : ({} : Watch).Matches s := ⟨rfl, rfl⟩
  refine ⟨?_, ?_, ?_⟩
  · intro level _
    exact level.run_ne_nil
  · intro hflushed
    exact (follows_run hstart ops hflushed).known.indentation_eq
  · intro hflushed hsame
    have hwatch : s.watch (ops ++ more) = (s.watch ops).through (t.turnsIn more) := by
      rw [watch, turnsIn_append, Watch.through_append]
      rfl
    rw [hwatch] at hflushed hsame
    have hknown : (s.watch ops).Matches t :=
      (follows_run hstart ops (Watch.flushed_of_through hflushed)).known
    obtain ⟨-, runs, hruns, hmarks⟩ := follows_run hknown more hflushed
    rw [← handedOut_turnsIn]
    refine hmarks ?_
    rwa [hruns, List.drop_left] at hsame

/-- A block with an empty line and a line that is escaped. -/
def interrupted : TextSource := { rest := "a\n  b\n\n  #x\n  c\n d".codePoints }

/-- Some tokens are asked for one after the other. -/
def asks (n : Nat) : List Operation := List.replicate n .next

/-- The lines of the block have no mark between them. -/
theorem run_interrupted :
    ((start interrupted none {} [⟨'#', '\n'⟩]).watch (asks 12)).flushed = false ∧
      ((start interrupted none {} [⟨'#', '\n'⟩]).watch (asks 12)).runs =
        ([[], [' ', ' '], [' ', ' ']] : List (List CodePoint)) ∧
      ((start interrupted none {} [⟨'#', '\n'⟩]).run (asks 4)).2.engine.stack.indentation =
        "  ".codePoints ∧
      Token.marks ((((start interrupted none {} [⟨'#', '\n'⟩]).run (asks 4)).2.run (asks 8)).1 ++
        (((start interrupted none {} [⟨'#', '\n'⟩]).run (asks 4)).2.run (asks 8)).2.engine.due) =
      Token.marks ((start interrupted none {} [⟨'#', '\n'⟩]).run (asks 4)).2.engine.due := by
  have hruns :
      ((start interrupted none {} [⟨'#', '\n'⟩]).watch (asks 4)).runs =
        ([[], [' ', ' ']] : List (List CodePoint)) := by
    decide +kernel
  have hmore : ((start interrupted none {} [⟨'#', '\n'⟩]).watch (asks 4 ++ asks 8)).runs =
      ([[], [' ', ' '], [' ', ' ']] : List (List CodePoint)) := by
    decide +kernel
  have hflushed : ((start interrupted none {} [⟨'#', '\n'⟩]).watch (asks 4)).flushed = false := by
    decide +kernel
  have hflushed' :
      ((start interrupted none {} [⟨'#', '\n'⟩]).watch (asks 4 ++ asks 8)).flushed = false := by
    decide +kernel
  obtain ⟨-, hspelled, hmarks⟩ :=
    run_spells interrupted none {} [⟨'#', '\n'⟩] (asks 4) (asks 8)
  refine ⟨hflushed', hmore, ?_, hmarks hflushed' ?_⟩
  · rw [hspelled hflushed, Watch.last, hruns]
    rfl
  · rw [hmore, Watch.last, hruns]
    decide

end Stream

end Offside
