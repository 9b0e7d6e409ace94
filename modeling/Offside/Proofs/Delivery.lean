import Offside.Proofs.Batch
import Offside.Proofs.Recovery

/-!
# Requests over a text

Feeding tells what a text lets out, but not when.  Over a source that begins with a text the answers
to a number of requests are the tokens that feeding a part of the text lets out, and when the last
of them has been handed out the stream stands behind just that part.  What is held back at the end
of the part comes with the next character that is let out.  What the source answers behind the text
makes no difference.

A text is echoed if its characters are handed out one after the other and nothing between them, and
the levels are the same all the while.

## Main definitions

* `CharSource.Begins` — a source answers with a text first.
* `Stream.FailsIn` — reading fails in a text.
* `Engine.Passing` — a text of which nothing is held back and nothing decides.
* `Stream.Echoes` — a stream hands out a text as it stands, and its levels stay.

## Main results

* `Engine.exists_held` — a text ends with the whitespace that is held back of it.
* `Stream.outcomes_of_begins` — requests do what feeding does.
* `Stream.outcomes_of_feedAll`, `Stream.failsIn_of_feedAll` — the same for a text in memory.
* `Stream.echoes_passing`, `Stream.echoes_run` — texts that are echoed.
-/

namespace Offside

namespace Engine

variable {e e' : Engine} {file : Option String} {c : CodePoint} {text rest run : List CodePoint}
  {tokens : List Token} {notices : List Notice} {x : ReadError}

/-! ### Same levels -/

theorem SameLevels.refl (e : Engine) : e.SameLevels e := ⟨rfl, rfl, rfl⟩

theorem SameLevels.symm (h : SameLevels e e') : SameLevels e' e :=
  ⟨h.stack_eq.symm, h.indents_eq.symm, h.dedents_eq.symm⟩

theorem sameLevels_holdBack (e : Engine) (c : CodePoint) : e.SameLevels (e.holdBack c) :=
  ⟨e.stack_holdBack c, e.indents_holdBack c, e.dedents_holdBack c⟩

theorem sameLevels_pass (e : Engine) (c : CodePoint) : e.SameLevels (e.pass c) :=
  ⟨e.stack_arrive c, e.indents_arrive c, e.dedents_arrive c⟩

/-! ### What is held back of a text -/

/-- A character that lets nothing out is held back. -/
theorem of_feed_eq_nil (h : e.feed file c = .ok ([], e', notices)) :
    e.holds c = true ∧ e' = e.holdBack c ∧ notices = [] := by
  have hfeeds := feeds_feed e file c
  rw [h] at hfeeds
  generalize htokens : ([] : List Token) = tokens at hfeeds
  cases hfeeds with
  | hold hesc hline hc => exact ⟨holds_iff.2 ⟨hesc, hline, hc⟩, rfl, rfl⟩
  | pass => simp at htokens
  | level => simp at htokens

/-- Any other character is the last of what it lets out. -/
theorem exists_of_feed (h : e.feed file c = .ok (tokens, e', notices))
    (hc : ¬ e.holds c = true) : e'.queue = [] ∧ ∃ out, tokens = out ++ [.content c] := by
  have hfeeds := feeds_feed e file c
  rw [h] at hfeeds
  cases hfeeds with
  | hold hesc hline hmem => exact absurd (holds_iff.2 ⟨hesc, hline, hmem⟩) hc
  | pass => exact ⟨rfl, _, rfl⟩
  | level => exact ⟨rfl, _, rfl⟩

/-- A text that lets nothing out is held back, and it leaves the levels and the escape rules
alone. -/
theorem of_feedAll_eq_nil (h : e.feedAll file run = ⟨[], .ok e', notices⟩) :
    e'.due = e.due ++ run.map .content ∧ e'.lineStart = e.lineStart ∧ e.SameLevels e' ∧
      notices = [] ∧ e'.tracker = e.tracker := by
  generalize htokens : ([] : List Token) = tokens at h
  revert htokens
  refine feedAll_induction (P := fun e text tokens e' notices => [] = tokens →
    e'.due = e.due ++ text.map .content ∧ e'.lineStart = e.lineStart ∧ e.SameLevels e' ∧
      notices = [] ∧ e'.tracker = e.tracker) ?_ ?_ h
  · intro e _
    exact ⟨by simp, rfl, .refl e, rfl, rfl⟩
  · intro e e₁ e' c text out tokens told notices hc ih htokens
    obtain ⟨rfl, rfl⟩ : out = [] ∧ tokens = [] := by simpa using htokens
    obtain ⟨-, rfl, rfl⟩ := of_feed_eq_nil hc
    obtain ⟨hdue, hline, hlevels, rfl, htracker⟩ := ih rfl
    refine ⟨?_, ?_, (sameLevels_holdBack e c).trans hlevels, rfl, ?_⟩
    · rw [hdue, due_holdBack, List.append_assoc]
      rfl
    · rw [hline, lineStart_holdBack]
    · rw [htracker, tracker_holdBack]

/-- If nothing was held back before, just the text is. -/
theorem lead_of_feedAll_eq_nil (hq : e.queue = [])
    (h : e.feedAll file run = ⟨[], .ok e', notices⟩) : e'.lead = run := by
  obtain ⟨hdue, -⟩ := of_feedAll_eq_nil h
  rw [lead, hdue, due_of_queue_nil hq]
  simp [Token.text, Function.comp_def]

/-- A text that is fed can be fed in two parts. -/
theorem exists_of_feedAll_append (h : e.feedAll file (text ++ rest) = ⟨tokens, .ok e', notices⟩) :
    ∃ out e₁ told tokens₁ notices₁, e.feedAll file text = ⟨out, .ok e₁, told⟩ ∧
      e₁.feedAll file rest = ⟨tokens₁, .ok e', notices₁⟩ ∧ tokens = out ++ tokens₁ := by
  induction text generalizing e tokens notices with
  | nil => exact ⟨[], e, [], tokens, notices, rfl, h, rfl⟩
  | cons c text ih =>
    rcases feedAll_cons_cases h with
      ⟨x, -, -, hx, -⟩ | ⟨first, e₁, said, tokens₁, notices₁, hc, h₁, rfl, -⟩
    · simp at hx
    · obtain ⟨out, e₂, told, tokens₂, notices₂, htext, hrest, rfl⟩ := ih h₁
      refine ⟨first ++ out, e₂, said ++ told, tokens₂, notices₂, ?_, hrest, ?_⟩
      · rw [feedAll_cons_of_ok hc, htext]
      · rw [List.append_assoc]

/-- The last character of a text is fed when all before it has been fed. -/
theorem exists_of_feedAll_concat (h : e.feedAll file (text ++ [c]) = ⟨tokens, .ok e', notices⟩) :
    ∃ out e₁ told tokens₁ notices₁, e.feedAll file text = ⟨out, .ok e₁, told⟩ ∧
      e₁.feed file c = .ok (tokens₁, e', notices₁) ∧ tokens = out ++ tokens₁ := by
  obtain ⟨out, e₁, told, tokens₁, notices₁, htext, hlast, rfl⟩ := exists_of_feedAll_append h
  rcases feedAll_cons_cases hlast with
    ⟨x, -, -, hx, -⟩ | ⟨first, e₂, said, tokens₂, notices₂, hc, hnil, rfl, -⟩
  · simp at hx
  · obtain ⟨rfl, rfl, -⟩ : [] = tokens₂ ∧ e₂ = e' ∧ _ := by simpa using hnil
    exact ⟨out, e₁, told, first, said, htext, hc, by rw [List.append_nil]⟩

/-- **A text ends with what is held back of it.** -/
theorem exists_held (hq : e.queue = []) (h : e.feedAll file text = ⟨tokens, .ok e', notices⟩) :
    ∃ before run e₀ told, text = before ++ run ∧
      e.feedAll file before = ⟨tokens, .ok e₀, told⟩ ∧ e₀.queue = [] ∧
      e₀.feedAll file run = ⟨[], .ok e', []⟩ := by
  induction text using List.reverseRecOn generalizing e' tokens notices with
  | nil =>
    obtain ⟨rfl, rfl, -⟩ : [] = tokens ∧ e = e' ∧ _ := by simpa using h
    exact ⟨[], [], e, [], rfl, rfl, hq, rfl⟩
  | append_singleton text c ih =>
    obtain ⟨out, e₁, told, tokens₁, notices₁, htext, hc, rfl⟩ := exists_of_feedAll_concat h
    by_cases hholds : e₁.holds c = true
    · -- the character is one more of what is held back
      rw [feed_of_holds hholds] at hc
      obtain ⟨rfl, rfl, rfl⟩ : [] = tokens₁ ∧ _ = e' ∧ [] = notices₁ := by simpa using hc
      obtain ⟨before, run, e₀, told₀, rfl, hbefore, hqueue, hrun⟩ := ih htext
      refine ⟨before, run ++ [c], e₀, told₀, by rw [List.append_assoc], ?_, hqueue, ?_⟩
      · rw [List.append_nil, hbefore]
      · rw [feedAll_append hrun, feedAll_cons_of_ok (feed_of_holds hholds file)]
        rfl
    · exact ⟨text ++ [c], [], e', notices, by rw [List.append_nil], h, (exists_of_feed hc hholds).1,
        rfl⟩

/-- The last character of a text is the last that is let out or held back. -/
theorem getLast?_feedAll (h : e.feedAll file (text ++ [c]) = ⟨tokens, .ok e', notices⟩) :
    (tokens ++ e'.due).getLast? = some (.content c) := by
  obtain ⟨out, e₁, told, tokens₁, notices₁, -, hc, rfl⟩ := exists_of_feedAll_concat h
  by_cases hholds : e₁.holds c = true
  · rw [feed_of_holds hholds] at hc
    obtain ⟨-, rfl, -⟩ : _ ∧ _ = e' ∧ _ := by simpa using hc
    have hdue := e₁.due_holdBack c
    rw [holdBack] at hdue
    rw [hdue, ← List.append_assoc, List.getLast?_concat]
  · obtain ⟨hqueue, before, rfl⟩ := exists_of_feed hc hholds
    rw [due_of_queue_nil hqueue]
    simp

/-! ### Feeding is heard -/

/-- What is held back is heard before what lets it out. -/
theorem hears_of_run {answers : List (Except ReadError (Option CodePoint))}
    {error : Option ReadError}
    {e₁ : Engine} (he : e.Leading) (hrun : e.feedAll file run = ⟨[], .ok e₁, notices⟩)
    (h : Hears file e₁ answers error e') :
    Hears file e (run.map (fun c => .ok (some c)) ++ answers) error e' := by
  induction run generalizing e notices with
  | nil =>
    obtain ⟨rfl, -⟩ : e = e₁ ∧ _ := by simpa using hrun
    exact h
  | cons c run ih =>
    rcases feedAll_cons_cases hrun with
      ⟨x, -, -, hx, -⟩ | ⟨out, e₂, told, tokens, notices₁, hc, hrest, hnil, -⟩
    · simp at hx
    obtain ⟨rfl, rfl⟩ : out = [] ∧ tokens = [] := by simpa using hnil.symm
    have he₂ : e₂.Leading := he.feed hc
    obtain ⟨hholds, rfl, -⟩ := of_feed_eq_nil hc
    exact .hold he.more hholds (ih he₂ hrest)

/-- A character that lets something out is heard, and what it lets out is queued. -/
theorem hears_of_feed (he : e.Leading) (hc : ¬ e.holds c = true)
    (h : e.feed file c = .ok (tokens, e', notices)) :
    ∃ e₁, Hears file e [.ok (some c)] none e₁ ∧ e₁.queue = tokens.map some ∧
      e' = e₁.delivered c := by
  have hc' : ¬ (e.arrive c).holds c = true := by rwa [holds_arrive]
  simp only [feed, if_neg hc'] at h
  split at h
  · simp at h
  · next e₁ told hrelease =>
    obtain ⟨rfl, rfl, -⟩ : e₁.due = tokens ∧ e₁.delivered c = e' ∧ _ := by simpa using h
    have hqueue : (e.arrive c).queue = (e.arrive c).due.map some := by
      simpa using he.queue_eq_due
    obtain ⟨out, hout⟩ := queue_of_release hqueue hrelease
    refine ⟨e₁, hears_of_release_ok he.more hc hrelease, ?_, rfl⟩
    rw [due, hout]
    simp [List.reduceOption]

/-- An error is heard, and it is that of a line that does not fit. -/
theorem hears_of_feed_error (he : e.Leading) (h : e.feed file c = .error x) :
    ∃ e' m, Hears file e [.ok (some c)] (some x) e' ∧ x = .mismatch m := by
  have hfeeds := feeds_feed e file c
  rw [h] at hfeeds
  cases hfeeds with
  | misfit hdecides hstack => exact ⟨_, _, .misfit he.more hdecides hstack, rfl⟩

end Engine

/-! ### Requests do what feeding does -/

namespace CharSource

/-- A source answers with the characters of a text first, and then with anything. -/
def Begins {σ : Type} [CharSource σ] (source : σ) (text : List CodePoint) : Prop :=
  answers source text.length = text.map fun c => .ok (some c)

theorem Begins.append {σ : Type} [CharSource σ] {source : σ} {text rest : List CodePoint}
    (h : Begins source (text ++ rest)) :
    Begins source text ∧ Begins (asked source text.length) rest := by
  rw [Begins, List.length_append, answers_add, List.map_append] at h
  exact List.append_inj h (by simp)

/-- A text in memory answers with its characters. -/
theorem answers_text (text rest : List CodePoint) (name : Option String) :
    answers ({ rest := text ++ rest, name := name } : TextSource) text.length =
        text.map (fun c => .ok (some c)) ∧
      asked ({ rest := text ++ rest, name := name } : TextSource) text.length =
        { rest := rest, name := name } := by
  induction text with
  | nil => exact ⟨rfl, rfl⟩
  | cons c text ih => exact ⟨congrArg (Except.ok (some c) :: ·) ih.1, ih.2⟩

end CharSource

namespace Stream

open Engine CharSource

section Begins

variable {σ : Type} [CharSource σ] {s : Stream σ} {e e' e₁ : Engine} {c : CodePoint}
  {text run : List CodePoint} {tokens : List Token} {notices : List Notice}
  {error : Option ReadError}

/-- A request reads on to the first character that is not held back. -/
theorem next_of_begins (hopen : s.closed = false) (hq : s.engine.queue = [])
    (he : s.engine.Leading) (hrun : s.engine.feedAll s.name run = ⟨[], .ok e₁, notices⟩)
    (h : Hears s.name e₁ [.ok (some c)] error e') (hsource : Begins s.source (run ++ [c])) :
    ∃ told, s.next = ((s.fed (run ++ [c]).length e').reply error).after told := by
  apply next_of_hears hopen hq
  rw [hsource, List.map_append]
  exact hears_of_run he hrun h

/-- A character that lets something out is handed out with what was held back before it, and the
levels are settled from the first request on. -/
theorem outcomes_of_begins_held (hopen : s.closed = false) (hq : s.engine.queue = [])
    (he : s.engine.Leading) (hrun : s.engine.feedAll s.name run = ⟨[], .ok e₁, []⟩)
    (hc : ¬ e₁.holds c = true) (h : e₁.feed s.name c = .ok (tokens, e', notices))
    (hsource : Begins s.source (run ++ [c])) :
    s.outcomes tokens.length = tokens.map (fun t => .ok (some t)) ∧
      s.after tokens.length = s.fed (run ++ [c]).length e' ∧
      ∀ i < tokens.length, SameLevels e' (s.after (i + 1)).engine := by
  obtain ⟨e₂, hhears, hqueue, rfl⟩ := hears_of_feed (he.feedAll hrun) hc h
  obtain ⟨told, hnext⟩ := next_of_begins hopen hq he hrun hhears hsource
  obtain ⟨-, out, rfl⟩ := exists_of_feed h hc
  -- the request is the one that takes the first of the queue
  let u := s.fed (run ++ [c]).length e₂
  have hu : u.next = u.handOut := next_of_queue_ne_nil hopen (by simp [u, fed, hqueue])
  have hsame (i : Nat) : s.outcomes (i + 1) = u.outcomes (i + 1) ∧
      s.after (i + 1) = u.after (i + 1) := by
    apply outcomes_congr
    · rw [hnext, hu]
      rfl
    · rw [hnext, hu]
      rfl
  have hqueue' : u.engine.queue = (out ++ [Token.content c]).map some ++ [] := by
    rw [List.append_nil]
    exact hqueue
  obtain ⟨houtcomes, hafter⟩ := outcomes_of_queue (s := u) hopen out (.content c) [] hqueue'
  rw [List.length_append, List.length_singleton]
  refine ⟨(hsame _).1.trans houtcomes, (hsame _).2.trans hafter, fun i hi => ?_⟩
  have hle : i + 1 ≤ (out ++ [Token.content c]).length := by simpa using Nat.succ_le_of_lt hi
  have hlevels := sameLevels_of_queue (s := u) _ hopen hqueue hle
  rw [(hsame i).2]
  exact ⟨hlevels.stack_eq, hlevels.indents_eq, hlevels.dedents_eq⟩

/-- **Requests do what feeding does**, whatever the source answers behind the text. -/
theorem outcomes_of_begins (hopen : s.closed = false) (hq : s.engine.queue = [])
    (he : s.engine.Leading) (h : s.engine.feedAll s.name text = ⟨tokens, .ok e', notices⟩)
    (hq' : e'.queue = []) (hsource : Begins s.source text) :
    s.outcomes tokens.length = tokens.map (fun t => .ok (some t)) ∧
      s.after tokens.length = s.fed text.length e' := by
  -- along the text: each character is one more of a run, or it lets the run out
  suffices hrun : ∀ (run : List CodePoint) (s : Stream σ) {e : Engine} {name : Option String},
      s.closed = false → s.engine.queue = [] → s.engine.Leading → s.name = name →
      s.engine.feedAll name run = ⟨[], .ok e, []⟩ →
      e.feedAll name text = ⟨tokens, .ok e', notices⟩ → Begins s.source (run ++ text) →
      s.outcomes tokens.length = tokens.map (fun t => .ok (some t)) ∧
        s.after tokens.length = s.fed (run ++ text).length e' from
    hrun [] s hopen hq he rfl rfl h hsource
  clear hopen hq he h hsource
  induction text generalizing tokens notices with
  | nil =>
    intro run s e name hopen hq he hname hrun h hsource
    obtain ⟨rfl, rfl, -⟩ : [] = tokens ∧ e = e' ∧ _ := by simpa using h
    -- nothing is held back at the end, so the run is empty
    obtain ⟨hdue, -⟩ := of_feedAll_eq_nil hrun
    rw [due_of_queue_nil hq', due_of_queue_nil hq, List.nil_append] at hdue
    obtain rfl : run = [] := by simpa using hdue.symm
    obtain rfl : s.engine = e := by simpa using hrun
    exact ⟨rfl, rfl⟩
  | cons c text ih =>
    intro run s e name hopen hq he hname hrun h hsource
    subst hname
    rcases feedAll_cons_cases h with
      ⟨x, -, -, hx, -⟩ | ⟨out, e₁, told, tokens₁, notices₁, hc, h₁, rfl, -⟩
    · simp at hx
    have hsplit : run ++ c :: text = run ++ [c] ++ text := by simp
    rw [hsplit] at hsource ⊢
    by_cases hholds : e.holds c = true
    · -- the character is one more of the run
      rw [feed_of_holds hholds] at hc
      obtain ⟨rfl, rfl, rfl⟩ : [] = out ∧ _ = e₁ ∧ [] = told := by simpa using hc
      have hrun' : s.engine.feedAll s.name (run ++ [c]) =
          ⟨[], .ok ((e.arrive c).enqueue (some (.content c))), []⟩ := by
        rw [feedAll_append hrun, feedAll_cons_of_ok (feed_of_holds hholds s.name)]
        rfl
      exact ih (run ++ [c]) s hopen hq he rfl hrun' h₁ hsource
    · -- the run is let out with the character, and a new one begins behind it
      obtain ⟨hqueue, -⟩ := exists_of_feed hc hholds
      obtain ⟨hfirst, hsecond⟩ := hsource.append
      obtain ⟨houtcomes, hafter, -⟩ :=
        outcomes_of_begins_held hopen hq he hrun hholds hc hfirst
      obtain ⟨houtcomes₁, hafter₁⟩ := ih [] (s.fed (run ++ [c]).length e₁) hopen hqueue
        ((he.feedAll hrun).feed hc) rfl rfl h₁ hsecond
      have hlength : (run ++ [c] ++ text).length = (run ++ [c]).length + text.length :=
        List.length_append
      have hfed : (s.fed (run ++ [c]).length e₁).fed text.length e' =
          s.fed (run ++ [c] ++ text).length e' := by
        rw [fed, fed, fed, hlength, asked_add]
      rw [List.length_append, outcomes_add, after_add, houtcomes, hafter, houtcomes₁, hafter₁,
        List.map_append, ← hfed]
      exact ⟨rfl, rfl⟩

end Begins

variable {name : Option String} {e e' e₁ : Engine} {c : CodePoint} {text run : List CodePoint}
  {tokens : List Token} {notices : List Notice} {x : ReadError} {error : Option ReadError}

/-- Where a part of a text has been fed, the rest of it is read next. -/
theorem fed_ofText (name : Option String) (e e' : Engine) (text rest : List CodePoint) :
    (ofText name e (text ++ rest)).fed text.length e' = ofText name e' rest := by
  obtain ⟨-, hasked⟩ := answers_text text rest name
  simp only [fed, ofText]
  exact congrArg (fun source => ({ source, name, engine := e' } : Stream TextSource)) hasked

/-- A request reads on to the first character of a text that is not held back. -/
theorem next_of_held (he : e.Leading) (hq : e.queue = [])
    (hrun : e.feedAll name run = ⟨[], .ok e₁, notices⟩)
    (h : Hears name e₁ [.ok (some c)] error e') (rest : List CodePoint) :
    ∃ told, (ofText name e (run ++ c :: rest)).next =
      ((ofText name e' rest).reply error).after told := by
  have hsplit : run ++ c :: rest = run ++ [c] ++ rest := by simp
  rw [hsplit, ← fed_ofText name e e' (run ++ [c]) rest]
  exact next_of_begins rfl hq he hrun h (answers_text (run ++ [c]) rest name).1

/-- In a text, a character that lets something out is handed out with what was held back. -/
theorem outcomes_of_feed (he : e.Leading) (hq : e.queue = [])
    (hrun : e.feedAll name run = ⟨[], .ok e₁, []⟩) (hc : ¬ e₁.holds c = true)
    (h : e₁.feed name c = .ok (tokens, e', notices)) (rest : List CodePoint) :
    let s := ofText name e (run ++ c :: rest)
    s.outcomes tokens.length = tokens.map (fun t => .ok (some t)) ∧
      s.after tokens.length = ofText name e' rest ∧
      ∀ i < tokens.length, SameLevels e' (s.after (i + 1)).engine := by
  have hsplit : run ++ c :: rest = run ++ [c] ++ rest := by simp
  intro s
  rw [← fed_ofText name e e' (run ++ [c]) rest, ← hsplit]
  refine outcomes_of_begins_held rfl hq he hrun hc h ?_
  show Begins ({ rest := run ++ c :: rest, name := name } : TextSource) (run ++ [c])
  rw [hsplit]
  exact (answers_text (run ++ [c]) rest name).1

/-- Requests over a text hand out what feeding a part of it lets out. -/
theorem outcomes_of_feedAll (he : e.Leading) (hq : e.queue = [])
    (h : e.feedAll name text = ⟨tokens, .ok e', notices⟩) (hq' : e'.queue = [])
    (rest : List CodePoint) :
    (ofText name e (text ++ rest)).outcomes tokens.length =
        tokens.map (fun t => .ok (some t)) ∧
      (ofText name e (text ++ rest)).after tokens.length = ofText name e' rest := by
  rw [← fed_ofText name e e' text rest]
  exact outcomes_of_begins rfl hq he h hq' (answers_text text rest name).1

/-- Reading fails in a text, with `rest` behind it: some tokens are handed out, then comes the error
of a line that does not fit, and part of the text is unread. -/
structure FailsIn (s : Stream TextSource) (text rest : List CodePoint) (tokens : List Token)
    (m : Mismatch) : Prop where
  outcomes_eq : s.outcomes (tokens.length + 1) =
    tokens.map (fun t => .ok (some t)) ++ [.error (.mismatch m)]
  rest_eq : ∃ start unread, text = start ++ unread ∧ unread.length < text.length ∧
    (s.after (tokens.length + 1)).source.rest = unread ++ rest

/-- **An error ends what requests do**, and it is that of a line that does not fit. -/
theorem failsIn_of_feedAll (he : e.Leading) (hq : e.queue = [])
    (h : e.feedAll name text = ⟨tokens, .error x, notices⟩) :
    ∃ m, x = .mismatch m ∧
      ∀ rest, (ofText name e (text ++ rest)).FailsIn text rest tokens m := by
  obtain ⟨before, c, unread, e₁, rfl, hbefore, hc⟩ := exists_of_feedAll_eq_error h
  obtain ⟨start, run, e₀, told, rfl, hstart, hqueue, hrun⟩ := exists_held hq hbefore
  have he₀ : e₀.Leading := he.feedAll hstart
  obtain ⟨e₂, m, hhears, rfl⟩ := hears_of_feed_error (he₀.feedAll hrun) hc
  refine ⟨m, rfl, fun rest => ?_⟩
  obtain ⟨houtcomes, hafter⟩ :=
    outcomes_of_feedAll he hq hstart hqueue (run ++ c :: (unread ++ rest))
  obtain ⟨said, hnext⟩ := next_of_held he₀ hqueue hrun hhears (unread ++ rest)
  have hsplit : start ++ run ++ c :: unread ++ rest = start ++ (run ++ c :: (unread ++ rest)) := by
    simp
  rw [hsplit]
  refine ⟨?_, start ++ run ++ [c], unread, by simp, by simp; omega, ?_⟩
  · rw [outcomes_succ_last, houtcomes, hafter, hnext]
    rfl
  · rw [after_succ_last, hafter, hnext]
    rfl

/-- Where the end of the input is met without an error, reading does not fail. -/
theorem not_failsIn {s : Stream TextSource} {n : Nat} {rest : List CodePoint} {m : Mismatch}
    (hok : ∀ o ∈ s.outcomes n, o.toOption.isSome = true) (hend : .ok none ∈ s.outcomes n) :
    ¬ s.FailsIn text rest tokens m := by
  rintro ⟨houtcomes, -⟩
  by_cases hle : tokens.length + 1 ≤ n
  · -- the error would be one of the answers
    obtain ⟨k, rfl⟩ := Nat.exists_eq_add_of_le hle
    rw [outcomes_add, houtcomes] at hok
    have herror := hok (.error (.mismatch m)) (by simp)
    simp [Except.toOption] at herror
  · -- the end would have been met before the error
    obtain ⟨k, hk⟩ := Nat.exists_eq_add_of_le (Nat.le_of_lt_succ (Nat.lt_of_not_le hle))
    rw [outcomes_succ_last] at houtcomes
    have htokens := List.append_inj_left' houtcomes rfl
    rw [hk, outcomes_add] at htokens
    have hmem : .ok none ∈
        tokens.map fun t => (.ok (some t) : Except ReadError (Option Token)) := by
      rw [← htokens]
      exact List.mem_append_left _ hend
    simp at hmem

end Stream

/-! ### Texts that are echoed -/

namespace Engine

variable {e : Engine} {c : CodePoint} {text : List CodePoint}

/-- Each character of a text is let out as it was read. -/
def Passing (e : Engine) : List CodePoint → Prop
  | [] => True
  | c :: text => e.Passes c ∧ (e.pass c).Passing text

/-- The analysis after a text of this kind. -/
def passAll (e : Engine) (text : List CodePoint) : Engine := text.foldl pass e

theorem layout_pass (e : Engine) (c : CodePoint) : (e.pass c).layout = e.layout := e.layout_arrive c

theorem tracker_pass (e : Engine) (c : CodePoint) : (e.pass c).tracker = e.tracker.observe c :=
  congrArg (Tracker.observe · c) (e.tracker_arrive c)

theorem lineStart_pass (e : Engine) (c : CodePoint) :
    (e.pass c).lineStart = decide (c = e.layout.newline) := by
  simp [pass, delivered, observe]

theorem Leading.pass (he : e.Leading) (hc : e.Passes c) : (e.pass c).Leading :=
  he.feed (feed_of_passes hc none)

/-- Such a text is let out behind what was held back. -/
theorem feedAll_passing (h : e.Passing (c :: text)) (file : Option String) :
    ∃ notices, e.feedAll file (c :: text) =
      ⟨e.due ++ (c :: text).map .content, .ok (e.passAll (c :: text)), notices⟩ := by
  induction text generalizing e c with
  | nil =>
    refine ⟨e.crossing c, ?_⟩
    rw [feedAll_cons_of_ok (feed_of_passes h.1 file)]
    simp [passAll]
  | cons d text ih =>
    obtain ⟨hc, htext⟩ := h
    obtain ⟨notices, hrest⟩ := ih htext
    have hdue : (e.pass c).due = [] := rfl
    refine ⟨e.crossing c ++ notices, ?_⟩
    rw [feedAll_cons_of_ok (feed_of_passes hc file), hrest, hdue, List.append_assoc]
    rfl

/-- Within a region nothing is held back and nothing decides. -/
theorem passing_of_active {r : Rule} (hactive : e.tracker.active = some r)
    (h : r.closing ∉ text.dropLast) : e.Passing text := by
  induction text generalizing e with
  | nil => trivial
  | cons c text ih =>
    refine ⟨Or.inl (by simp [escapes, Tracker.escapes, hactive]), ?_⟩
    cases text with
    | nil => trivial
    | cons d text =>
      rw [List.dropLast_cons_of_ne_nil (List.cons_ne_nil d text), List.mem_cons, not_or] at h
      refine ih ?_ h.2
      rw [tracker_pass, Tracker.observe, hactive]
      simp [Ne.symm h.1, hactive]

/-- Neither is anything behind the start of a line. -/
theorem passing_of_lineStart (hline : e.lineStart = false)
    (h : e.layout.newline ∉ text.dropLast) : e.Passing text := by
  induction text generalizing e with
  | nil => trivial
  | cons c text ih =>
    refine ⟨Or.inr (Or.inl hline), ?_⟩
    cases text with
    | nil => trivial
    | cons d text =>
      rw [List.dropLast_cons_of_ne_nil (List.cons_ne_nil d text), List.mem_cons, not_or] at h
      refine ih ?_ (by rw [layout_pass]; exact h.2)
      rw [lineStart_pass, decide_eq_false (Ne.symm h.1)]

end Engine

namespace Stream

open Engine

/-- A stream hands out a text as it stands, and its levels stay. -/
structure Echoes {σ : Type} [CharSource σ] (s : Stream σ) (text : List CodePoint) : Prop where
  outcomes_eq : s.outcomes text.length = text.map fun c => .ok (some (.content c))
  sameLevels : ∀ i ≤ text.length, SameLevels s.engine (s.after i).engine

section Echoes

variable {σ : Type} [CharSource σ] {s : Stream σ} {text rest : List CodePoint}

theorem echoes_nil (s : Stream σ) : s.Echoes [] where
  outcomes_eq := rfl
  sameLevels i hi := by
    obtain rfl : i = 0 := Nat.le_zero.1 hi
    exact .refl _

theorem Echoes.append (h : s.Echoes text) (h' : (s.after text.length).Echoes rest) :
    s.Echoes (text ++ rest) where
  outcomes_eq := by
    rw [List.length_append, outcomes_add, h.outcomes_eq, h'.outcomes_eq, List.map_append]
  sameLevels i hi := by
    rw [List.length_append] at hi
    by_cases hle : i ≤ text.length
    · exact h.sameLevels i hle
    · obtain ⟨j, rfl⟩ := Nat.exists_eq_add_of_le (Nat.le_of_not_le hle)
      rw [after_add]
      exact (h.sameLevels _ (Nat.le_refl _)).trans (h'.sameLevels j (by omega))

/-- A text is echoed in parts. -/
theorem Echoes.of_append (h : s.Echoes (text ++ rest)) :
    s.Echoes text ∧ (s.after text.length).Echoes rest := by
  have houtcomes := h.outcomes_eq
  rw [List.length_append, outcomes_add, List.map_append] at houtcomes
  have hlength (t : Stream σ) (n : Nat) : (t.outcomes n).length = n := by
    induction n generalizing t with
    | zero => rfl
    | succ n ih => rw [outcomes_succ, List.length_cons, ih]
  obtain ⟨hfirst, hsecond⟩ := List.append_inj houtcomes (by rw [hlength, List.length_map])
  refine ⟨⟨hfirst, fun i hi => h.sameLevels i (by rw [List.length_append]; omega)⟩, hsecond,
    fun i hi => ?_⟩
  have hstart := h.sameLevels text.length (by simp)
  have hlevels := h.sameLevels (text.length + i) (by rw [List.length_append]; omega)
  rw [← after_add]
  exact hstart.symm.trans hlevels

end Echoes

variable {name : Option String} {e e₁ : Engine} {c : CodePoint} {text run : List CodePoint}

/-- What is held back is echoed together with a character that is let out as it was read. -/
theorem echoes_held (he : e.Leading) (hq : e.queue = [])
    (hrun : e.feedAll name run = ⟨[], .ok e₁, []⟩) (hc : e₁.Passes c) (rest : List CodePoint) :
    (ofText name e (run ++ c :: rest)).Echoes (run ++ [c]) ∧
      (ofText name e (run ++ c :: rest)).after (run ++ [c]).length =
        ofText name (e₁.pass c) rest := by
  obtain ⟨hdue, -, hheld, -⟩ := of_feedAll_eq_nil hrun
  obtain ⟨houtcomes, hafter, hlevels⟩ :=
    outcomes_of_feed he hq hrun hc.not_holds (feed_of_passes hc name) rest
  have htokens : e₁.due ++ [.content c] = (run ++ [c]).map Token.content := by
    rw [hdue, due_of_queue_nil hq]
    simp
  rw [htokens, List.length_map] at houtcomes hafter hlevels
  refine ⟨⟨?_, fun i hi => ?_⟩, hafter⟩
  · rw [houtcomes, List.map_map]
    rfl
  · cases i with
    | zero => exact .refl _
    | succ i => exact (hheld.trans (sameLevels_pass e₁ c)).trans (hlevels i hi)

/-- **A text of which nothing is held back and nothing decides is echoed.** -/
theorem echoes_passing (he : e.Leading) (hq : e.queue = []) (h : e.Passing text)
    (rest : List CodePoint) :
    (ofText name e (text ++ rest)).Echoes text ∧
      (ofText name e (text ++ rest)).after text.length = ofText name (e.passAll text) rest := by
  induction text generalizing e with
  | nil => exact ⟨echoes_nil _, rfl⟩
  | cons c text ih =>
    obtain ⟨hc, htext⟩ := h
    have hnil : e.feedAll name [] = ⟨[], .ok e, []⟩ := rfl
    obtain ⟨hfirst, hafter⟩ := echoes_held he hq hnil hc (text ++ rest)
    obtain ⟨hrest, hafter'⟩ := ih (he.pass hc) rfl htext
    rw [← hafter] at hrest hafter'
    refine ⟨hfirst.append hrest, ?_⟩
    rw [List.length_cons, Nat.add_comm, after_add]
    exact hafter'

/-- **What is held back is echoed** with a text behind it of this kind. -/
theorem echoes_run (he : e.Leading) (hq : e.queue = [])
    (hrun : e.feedAll name run = ⟨[], .ok e₁, []⟩) (h : e₁.Passing (c :: text))
    (rest : List CodePoint) :
    (ofText name e (run ++ c :: (text ++ rest))).Echoes (run ++ c :: text) ∧
      (ofText name e (run ++ c :: (text ++ rest))).after (run ++ c :: text).length =
        ofText name (e₁.passAll (c :: text)) rest := by
  obtain ⟨hc, htext⟩ := h
  obtain ⟨hfirst, hafter⟩ := echoes_held he hq hrun hc (text ++ rest)
  obtain ⟨hrest, hafter'⟩ := echoes_passing ((he.feedAll hrun).pass hc) rfl htext rest
  rw [← hafter] at hrest hafter'
  have hsplit : run ++ c :: text = run ++ [c] ++ text := by simp
  rw [hsplit]
  refine ⟨hfirst.append hrest, ?_⟩
  rw [List.length_append, after_add]
  exact hafter'

end Stream

end Offside
