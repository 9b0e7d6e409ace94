import Offside.Proofs.Regions

/-!
# Lines without content

A line of whitespace decides about nothing, however deep it is, and neither does a line that holds
nothing but a region up to its end, such as a comment.  Where a line starts and no region is open,
a line of this kind may be put in or left out: it is handed out as it stands, the levels stay, and
the analysis behind it is the same but for the number of lines read.

Of this number nothing depends but the line that an error names.  So the text behind the line is
handed out as if the line were not there, and if one of its lines does not fit the same error comes,
one line later.

For this the newline must neither be whitespace nor open a region.

## Main definitions

* `Layout.Idle` — lines of this kind.
* `ReadError.later`, `Engine.later`, `Stream.later` — the same, some lines further down.
* `Stream.HandsOut` — what a stream has handed out when it stands between two parts of a text.

## Main results

* `Engine.atLine_feedAll` — behind a newline nothing is held back, and a line starts.
* `Stream.next_later`, `Stream.outcomes_later` — only errors tell how many lines have been read.
* `Stream.echoes_idle` — an idle line is echoed, and it leaves all else as it was.
* `Stream.idle_transparent` — **idle lines are transparent.**
-/

namespace Offside

/-! ### Further down -/

/-- The same error, some lines further down. -/
def ReadError.later (n : Nat) : ReadError → ReadError
  | .mismatch m => .mismatch { m with line := m.line + n }
  | x => x

namespace Engine

/-- The same analysis, some lines further down. -/
def later (n : Nat) (e : Engine) : Engine := { e with line := e.line + n }

variable {e e' : Engine} {file : Option String}

theorem arrive_later (e : Engine) (n : Nat) (c : CodePoint) :
    (e.later n).arrive c = (e.arrive c).later n := by
  unfold arrive
  show (if c = e.layout.newline then _ else _) = _
  split
  · simp [later, Nat.add_right_comm]
  · rfl

theorem holdBack_later (e : Engine) (n : Nat) (c : CodePoint) :
    (e.later n).holdBack c = (e.holdBack c).later n := by
  unfold holdBack
  rw [arrive_later]
  rfl

/-- **Further down the same is heard**, but for the line that an error names. -/
theorem Hears.later {answers : List (Except ReadError (Option CodePoint))}
    {error : Option ReadError}
    (h : Hears file e answers error e') (hok : ∀ x, .error x ∉ answers) (n : Nat) :
    Hears file (e.later n) answers (error.map (ReadError.later n)) (e'.later n) := by
  induction h with
  | @ended e hended => exact .ended (e := e.later n) hended
  | fail hmore x => exact absurd List.mem_cons_self (hok x)
  | @stop e hmore => exact .stop (e := e.later n) hmore
  | @hold e e' c answers error hmore hc hrest ih =>
    apply Hears.hold (e := e.later n) hmore hc
    rw [holdBack_later]
    exact ih fun x hx => hok x (List.mem_cons_of_mem _ hx)
  | @pass e c hmore hc =>
    have hpass := @Hears.pass file (e.later n) c hmore hc
    rwa [arrive_later] at hpass
  | @level e c stack hmore hc hstack =>
    have hlevel := @Hears.level file (e.later n) c stack hmore
      ⟨hc.escapes_eq, hc.lineStart_eq, hc.notMem, hc.ne_newline⟩ hstack
    rwa [arrive_later] at hlevel
  | @misfit e c hmore hc hstack =>
    have hmisfit := @Hears.misfit file (e.later n) c hmore
      ⟨hc.escapes_eq, hc.lineStart_eq, hc.notMem, hc.ne_newline⟩ hstack
    rwa [arrive_later] at hmisfit

theorem dequeue_later (e : Engine) (n : Nat) :
    (e.later n).dequeue = (e.dequeue.1, e.dequeue.2.later n) := by
  rcases e with ⟨layout, stack, tracker, _ | ⟨entry, rest⟩⟩
  · rfl
  · rfl

theorem deliver_later (e : Engine) (n : Nat) (entry : Option Token) :
    (e.later n).deliver entry =
      ((e.deliver entry).1, (e.deliver entry).2.1.later n, (e.deliver entry).2.2) := by
  cases entry with
  | some t => rfl
  | none =>
    show (e.later n).flush = (e.flush.1, e.flush.2.1.later n, e.flush.2.2)
    unfold flush
    show (if e.depth = 0 then _ else _) = _
    split
    · rfl
    · -- the marks are queued, and the first of them is taken off
      let closed : Engine :=
        { e with
          stack := {}
          queue := e.queue ++ List.replicate e.depth (some e.dedentToken) ++ [none]
          dedents := e.dedents + e.depth
          lineStart := false }
      exact congrArg (fun step : Option Token × Engine => (step.1, step.2, [Notice.flush e.depth]))
        (closed.dequeue_later n)

end Engine

namespace Stream

open Engine CharSource

/-- The same stream, some lines further down. -/
def later {σ : Type} (n : Nat) (s : Stream σ) : Stream σ := { s with engine := s.engine.later n }

theorem handOut_later {σ : Type} (s : Stream σ) (n : Nat) :
    (s.later n).handOut = ⟨s.handOut.outcome, s.handOut.next.later n, s.handOut.notices⟩ := by
  simp only [handOut, deliver, later, dequeue_later, deliver_later]

/-- A text in memory does not fail. -/
theorem error_notMem_answers (source : TextSource) (k : Nat) (x : ReadError) :
    .error x ∉ answers source k := by
  induction k generalizing source with
  | zero => simp
  | succ k ih =>
    rw [answers_succ, List.mem_cons, not_or]
    refine ⟨?_, ih _⟩
    rcases source with ⟨_ | ⟨c, rest⟩, name⟩
    · exact fun h => nomatch h
    · exact fun h => nomatch h

variable {s : Stream TextSource}

/-- A request is answered the same further down, but for the line that an error names. -/
theorem next_later (hopen : s.closed = false) (n : Nat) :
    (s.later n).next.outcome = s.next.outcome.mapError (ReadError.later n) ∧
      (s.later n).next.next = s.next.next.later n := by
  rcases next_hears hopen with ⟨hne, hs⟩ | ⟨hq, k, error, e, told, hhears, hs⟩
  · have ht : (s.later n).next = (s.later n).handOut := next_of_queue_ne_nil hopen hne
    rw [hs, ht, handOut_later]
    exact ⟨rfl, rfl⟩
  · have hlater : Hears s.name (s.later n).engine (answers s.source k)
        (error.map (ReadError.later n)) (e.later n) :=
      hhears.later (error_notMem_answers s.source k) n
    obtain ⟨told', ht⟩ := next_of_hears (s := s.later n) hopen hq hlater
    have hfed : (s.later n).fed k (e.later n) = (s.fed k e).later n := rfl
    rw [hs, ht, hfed]
    cases error with
    | some x => exact ⟨rfl, rfl⟩
    | none =>
      rw [Option.map_none, reply, reply, handOut_later]
      exact ⟨rfl, rfl⟩

/-- **Only errors tell how many lines have been read.** -/
theorem outcomes_later (hopen : s.closed = false) (n k : Nat) :
    (s.later n).outcomes k = (s.outcomes k).map (Except.mapError (ReadError.later n)) ∧
      (s.later n).after k = (s.after k).later n := by
  induction k generalizing s with
  | zero => exact ⟨rfl, rfl⟩
  | succ k ih =>
    obtain ⟨houtcome, hnext⟩ := next_later hopen n
    obtain ⟨-, -, -, hopen'⟩ := next_frame hopen
    obtain ⟨houtcomes, hafter⟩ := ih hopen'
    constructor
    · rw [outcomes_succ, houtcome, hnext, houtcomes, outcomes_succ, List.map_cons]
    · rw [after_succ, hnext, hafter, after_succ]

end Stream

/-! ### Idle lines -/

/-- A region goes on as long as nothing closes it. -/
theorem Tracker.after_of_notMem {t : Tracker} {r : Rule} {text : List CodePoint}
    (hactive : t.active = some r) (h : r.closing ∉ text) : t.after text = t := by
  induction text with
  | nil => rfl
  | cons c text ih =>
    rw [List.mem_cons, not_or] at h
    have hobserve : t.observe c = t := by
      rw [observe, hactive]
      exact if_neg (Ne.symm h.1)
    rw [after_cons, hobserve, ih h.2]

theorem Tracker.after_eq_of_active_eq_none {rules : List Rule} {text : List CodePoint}
    (hactive : (({ rules := rules } : Tracker).after text).active = none) :
    ({ rules := rules } : Tracker).after text = { rules := rules } := by
  have hrules := ({ rules := rules } : Tracker).rules_after text
  cases h : ({ rules := rules } : Tracker).after text with
  | mk rules' active =>
    rw [h] at hactive hrules
    obtain rfl : active = none := hactive
    obtain rfl : rules' = rules := hrules
    rfl

/-- Whitespace that opens no region. -/
def Layout.Blank (l : Layout) (rules : List Rule) (run : List CodePoint) : Prop :=
  ∀ c ∈ run, c ∈ l.whitespace ∧ ({ rules := rules } : Tracker).opened c = none

/-- A line with no content, where no region is open before it: whitespace up to the newline, or up
to a region that goes on to the newline. -/
inductive Layout.Idle (l : Layout) (rules : List Rule) : List CodePoint → Prop where
  /-- The line is blank. -/
  | blank {run : List CodePoint} (hrun : l.Blank rules run) : Idle l rules (run ++ [l.newline])
  /-- The line holds a region that the newline closes, such as a comment. -/
  | region {run note : List CodePoint} {opening : CodePoint} {r : Rule} (hrun : l.Blank rules run)
      (hopened : ({ rules := rules } : Tracker).opened opening = some r)
      (hclosing : r.closing = l.newline) (hnote : l.newline ∉ note) :
      Idle l rules (run ++ opening :: (note ++ [l.newline]))

namespace Layout

variable {l : Layout} {rules : List Rule} {run line : List CodePoint}

theorem Blank.observe_eq {c : CodePoint} (h : l.Blank rules (c :: run)) :
    ({ rules := rules } : Tracker).observe c = { rules := rules } := by
  show ({ rules := rules, active := _ } : Tracker) = _
  rw [(h c List.mem_cons_self).2]

theorem Blank.after_eq (h : l.Blank rules run) :
    ({ rules := rules } : Tracker).after run = { rules := rules } := by
  induction run with
  | nil => rfl
  | cons c run ih =>
    rw [Tracker.after_cons, h.observe_eq, ih fun d hd => h d (List.mem_cons_of_mem c hd)]

theorem Blank.leads (h : l.Blank rules run) :
    ∀ x ∈ ({ rules := rules } : Tracker).labelled run, l.leads x = true := by
  induction run with
  | nil => simp
  | cons c run ih =>
    intro x hx
    rw [Tracker.labelled_cons, h.observe_eq, List.mem_cons] at hx
    rcases hx with rfl | hx
    · obtain ⟨hc, hopened⟩ := h c List.mem_cons_self
      simp [Layout.leads, Tracker.escapes, hopened, hc]
    · exact ih (fun d hd => h d (List.mem_cons_of_mem c hd)) x hx

theorem Idle.getLast?_eq (h : l.Idle rules line) : line.getLast? = some l.newline := by
  cases h with
  | blank => exact List.getLast?_concat
  | @region run note opening =>
    rw [← List.cons_append, ← List.append_assoc]
    exact List.getLast?_concat

/-- An idle line is one line. -/
theorem Idle.count_newline (h : l.Idle rules line) (hn : l.newline ∉ l.whitespace)
    (hnewline : ({ rules := rules } : Tracker).opened l.newline = none) :
    line.count l.newline = 1 := by
  have hzero {run : List CodePoint} (hrun : l.Blank rules run) : run.count l.newline = 0 :=
    List.count_eq_zero.2 fun hmem => hn (hrun _ hmem).1
  cases h with
  | blank hrun => rw [List.count_append, hzero hrun, List.count_singleton_self]
  | @region run note opening r hrun hopened hclosing hnote =>
    have hne : opening ≠ l.newline := by
      rintro rfl
      simp [hnewline] at hopened
    rw [List.count_append, hzero hrun, List.count_cons_of_ne hne, List.count_append,
      List.count_eq_zero.2 hnote, List.count_singleton_self]

/-- No region is open behind an idle line. -/
theorem Idle.after_eq (h : l.Idle rules line)
    (hnewline : ({ rules := rules } : Tracker).opened l.newline = none) :
    ({ rules := rules } : Tracker).after line = { rules := rules } := by
  cases h with
  | blank hrun =>
    rw [Tracker.after_append, hrun.after_eq, Tracker.after_cons, Tracker.after_nil,
      Tracker.observe]
    simp only [hnewline]
  | @region run note opening r hrun hopened hclosing hnote =>
    have hopening : ({ rules := rules } : Tracker).observe opening =
        { rules := rules, active := some r } := by
      rw [Tracker.observe]
      simp only [hopened]
    have hnote' : r.closing ∉ note := by rwa [hclosing]
    rw [Tracker.after_append, hrun.after_eq, Tracker.after_cons, hopening, Tracker.after_append,
      Tracker.after_of_notMem rfl hnote', Tracker.after_cons, Tracker.after_nil, ← hclosing]
    exact if_pos rfl

/-- What follows the whitespace of an idle line is let out as it is read. -/
theorem Idle.exists_run (h : l.Idle rules line) (hn : l.newline ∉ l.whitespace) :
    ∃ run c tail, line = run ++ c :: tail ∧ l.Blank rules run ∧
      ∀ e : Engine, e.layout = l → e.tracker = { rules := rules } → e.Passing (c :: tail) := by
  cases h with
  | @blank run hrun =>
    refine ⟨run, l.newline, [], rfl, hrun, fun e hlayout _ => ⟨?_, trivial⟩⟩
    rw [Engine.Passes, hlayout]
    exact Or.inr (Or.inr ⟨rfl, hn⟩)
  | @region run note opening r hrun hopened hclosing hnote =>
    refine ⟨run, opening, note ++ [l.newline], rfl, hrun, fun e _ htracker => ⟨Or.inl ?_, ?_⟩⟩
    · simp [Engine.escapes, Tracker.escapes, htracker, hopened]
    · refine Engine.passing_of_active (r := r) ?_ (by rwa [List.dropLast_concat, hclosing])
      rw [Engine.tracker_pass, htracker, Tracker.observe]
      exact hopened

end Layout

namespace Engine

variable {e e' : Engine} {file : Option String} {text : List CodePoint} {tokens : List Token}
  {notices : List Notice} {n : Nat}

/-- Behind a newline that is no whitespace nothing is held back, and a line starts. -/
theorem atLine_feedAll (he : e.Leading) (hn : e.layout.newline ∉ e.layout.whitespace)
    (hlast : text.getLast? = some e.layout.newline)
    (h : e.feedAll file text = ⟨tokens, .ok e', notices⟩) : e'.AtLine := by
  have hline : e'.lineStart = true := lineStart_feedAll hlast h
  have he' : e'.Leading := he.feedAll h
  obtain ⟨before, rfl⟩ := List.getLast?_eq_some_iff.1 hlast
  obtain ⟨out, e₁, told, tokens₁, notices₁, hbefore, hc, -⟩ := exists_of_feedAll_concat h
  have hlayout : e₁.layout = e.layout := layout_feedAll hbefore
  have hholds : ¬ e₁.holds e.layout.newline = true := by
    rw [holds_iff, hlayout]
    exact fun hholds => hn hholds.2.2
  rw [← hlayout] at hc hholds
  exact ⟨he', hline, (exists_of_feed hc hholds).1, (place_feed_newline hc).2⟩

/-- Two analyses at the start of a line are the same but for the number of lines read. -/
theorem AtLine.eq_later (he : e.AtLine) (he' : e'.AtLine) (hlayout : e'.layout = e.layout)
    (htracker : e'.tracker = e.tracker) (hlevels : e.SameLevels e') (hline : e'.line = e.line + n) :
    e' = e.later n := by
  obtain ⟨hstack, hindents, hdedents⟩ := hlevels
  have hqueue : e'.queue = e.queue := by rw [he.queue_eq_nil, he'.queue_eq_nil]
  have hstart : e'.lineStart = e.lineStart := by rw [he.lineStart_eq, he'.lineStart_eq]
  have hcolumn : e'.column = e.column := by rw [he.column_eq, he'.column_eq]
  have hmore : e'.exhausted = e.exhausted := by rw [he.more, he'.more]
  cases e
  cases e'
  simp only at hlayout htracker hstack hindents hdedents hline hqueue hstart hcolumn hmore
  subst_vars
  rfl

end Engine

namespace Stream

open Engine

variable {name : Option String} {l : Layout} {rules : List Rule} {before line : List CodePoint}
  {e : Engine} {tokens : List Token} {notices : List Notice}

/-- **An idle line is echoed**, and the analysis stands where it stood, one line further down. -/
theorem echoes_idle (he : e.AtLine) (htracker : e.tracker = { rules := rules })
    (hn : e.layout.newline ∉ e.layout.whitespace)
    (hnewline : ({ rules := rules } : Tracker).opened e.layout.newline = none)
    (h : e.layout.Idle rules line) (name : Option String) (rest : List CodePoint) :
    (ofText name e (line ++ rest)).Echoes line ∧
      (ofText name e (line ++ rest)).after line.length = ofText name (e.later 1) rest := by
  obtain ⟨run, c, tail, rfl, hrun, hpassing⟩ := h.exists_run hn
  have hleads : ∀ x ∈ e.tracker.labelled run, e.layout.leads x = true := by
    rw [htracker]
    exact hrun.leads
  obtain ⟨e₁, hheld, -, -, -⟩ := feedAll_run he.toLeading he.lineStart_eq name hleads
  have htracker₁ : e₁.tracker = { rules := rules } := by
    rw [tracker_feedAll hheld, htracker, hrun.after_eq]
  have hpass : e₁.Passing (c :: tail) := hpassing e₁ (layout_feedAll hheld) htracker₁
  obtain ⟨hechoes, hafter⟩ := echoes_run he.toLeading he.queue_eq_nil hheld hpass rest
  obtain ⟨notices, hfed⟩ := feedAll_passing hpass name
  have hall := feedAll_append hheld (c :: tail)
  rw [hfed] at hall
  have hlevels := hechoes.sameLevels _ (Nat.le_refl _)
  rw [hafter] at hlevels
  have hlater : e₁.passAll (c :: tail) = e.later 1 := by
    -- the line ends with its only newline, so the next one starts as it did
    refine he.eq_later (atLine_feedAll he.toLeading hn h.getLast?_eq hall) (layout_feedAll hall) ?_
      hlevels ?_
    · rw [tracker_feedAll hall, htracker, h.after_eq hnewline]
    · rw [line_feedAll hall, h.count_newline hn hnewline]
  rw [hlater] at hafter
  rw [List.append_assoc, List.cons_append]
  exact ⟨hechoes, hafter⟩

/-- A stream hands out some tokens, and stands then before the rest of its text. -/
structure HandsOut (s : Stream TextSource) (tokens : List Token) (rest : List CodePoint) :
    Prop where
  outcomes_eq : s.outcomes tokens.length = tokens.map fun t => .ok (some t)
  queue_eq_nil : (s.after tokens.length).engine.queue = []
  rest_eq : (s.after tokens.length).source.rest = rest

/-- Behind nothing or a newline a line starts, and the newline was the last to be let out. -/
theorem atLine_of_fresh (hn : l.newline ∉ l.whitespace)
    (hbefore : before = [] ∨ before.getLast? = some l.newline)
    (hfed : (fresh l rules).feedAll name before = ⟨tokens, .ok e, notices⟩) :
    e.AtLine ∧ tokens.getLast? = before.getLast?.map Token.content := by
  rcases hbefore with rfl | hlast
  · obtain ⟨rfl, rfl, -⟩ : [] = tokens ∧ fresh l rules = e ∧ _ := by simpa using hfed
    exact ⟨atLine_fresh l rules, rfl⟩
  · have he : e.AtLine := atLine_feedAll (leading_fresh l rules) hn hlast hfed
    refine ⟨he, ?_⟩
    obtain ⟨start, rfl⟩ := List.getLast?_eq_some_iff.1 hlast
    have htokens := getLast?_feedAll hfed
    rw [due_of_queue_nil he.queue_eq_nil, List.append_nil] at htokens
    rw [htokens, hlast, Option.map_some]

theorem handsOut_of_feedAll (hfed : (fresh l rules).feedAll name before = ⟨tokens, .ok e, notices⟩)
    (hq : e.queue = []) (rest : List CodePoint) :
    (ofText name (fresh l rules) (before ++ rest)).HandsOut tokens rest ∧
      (ofText name (fresh l rules) (before ++ rest)).after tokens.length = ofText name e rest := by
  obtain ⟨houtcomes, hafter⟩ := outcomes_of_feedAll (leading_fresh l rules) rfl hfed hq rest
  refine ⟨⟨houtcomes, ?_, ?_⟩, hafter⟩
  · rw [hafter]
    exact hq
  · rw [hafter]
    rfl

/-- **Idle lines are transparent.**  Put in where a line starts and no region is open, such a line
is handed out as it stands, between what the text before it gives and what the text behind it gives,
and the levels stay.  An error in the text before it is the same, and one in the text behind it
comes one line later. -/
theorem idle_transparent (hn : l.newline ∉ l.whitespace)
    (hnewline : ({ rules := rules } : Tracker).opened l.newline = none)
    (hbefore : before = [] ∨ before.getLast? = some l.newline)
    (hactive : (({ rules := rules } : Tracker).after before).active = none)
    (hline : l.Idle rules line) (name : Option String) (text : List CodePoint) :
    let s := ofText name (fresh l rules) (before ++ text)
    let t := ofText name (fresh l rules) (before ++ (line ++ text))
    (∃ tokens m, s.FailsIn before text tokens m ∧ t.FailsIn before (line ++ text) tokens m) ∨
      ∃ tokens : List Token,
        s.HandsOut tokens text ∧ t.HandsOut tokens (line ++ text) ∧
        tokens.getLast? = before.getLast?.map .content ∧
        (t.after tokens.length).Echoes line ∧
        ∀ n,
          (t.after (tokens.length + line.length)).outcomes n =
            ((s.after tokens.length).outcomes n).map (Except.mapError (ReadError.later 1)) ∧
          (t.after (tokens.length + line.length)).after n =
            ((s.after tokens.length).after n).later 1 := by
  intro s t
  have hfresh : (fresh l rules).Leading := leading_fresh l rules
  rcases hfed : (fresh l rules).feedAll name before with ⟨tokens, x | e, notices⟩
  · -- a line before the idle one does not fit
    obtain ⟨m, -, hfails⟩ := failsIn_of_feedAll hfresh rfl hfed
    exact Or.inl ⟨tokens, m, hfails text, hfails (line ++ text)⟩
  · refine Or.inr ⟨tokens, ?_⟩
    -- the text before fits: where it ends a line starts, with nothing held back
    have hlayout : e.layout = l := layout_feedAll hfed
    have htracker : e.tracker = { rules := rules } := by
      rw [tracker_feedAll hfed]
      exact Tracker.after_eq_of_active_eq_none hactive
    obtain ⟨he, hlast⟩ := atLine_of_fresh hn hbefore hfed
    obtain ⟨hs, hafter⟩ := handsOut_of_feedAll hfed he.queue_eq_nil text
    obtain ⟨ht, hafter'⟩ := handsOut_of_feedAll hfed he.queue_eq_nil (line ++ text)
    obtain ⟨hechoes, hbehind⟩ := echoes_idle he htracker (by rwa [hlayout]) (by rwa [hlayout])
      (by rwa [hlayout]) name text
    refine ⟨hs, ht, hlast, ?_, fun n => ?_⟩
    · rw [hafter']
      exact hechoes
    · -- from there on the two differ in the number of the line only
      rw [after_add, hafter', hbehind, hafter]
      exact outcomes_later (s := ofText name e text) rfl 1 n

/-- A comment that is indented like no level, put in within a block. -/
theorem idle_transparent_comment :
    let l : Layout := {}
    let before := "a\n  b\n".codePoints
    let text := "  c\nd\n".codePoints
    let line := "\t# b\n".codePoints
    (l.newline ∉ l.whitespace ∧ ({ rules := noted } : Tracker).opened l.newline = none ∧
      before.getLast? = some l.newline ∧
      (({ rules := noted } : Tracker).after before).active = none ∧ l.Idle noted line) ∧
    ∃ tokens : List Token,
      (ofText none (fresh l noted) (before ++ text)).HandsOut tokens text ∧
        ((ofText none (fresh l noted) (before ++ (line ++ text))).after tokens.length).Echoes
          line := by
  intro l before text line
  have hn : l.newline ∉ l.whitespace := by decide
  have hnewline : ({ rules := noted } : Tracker).opened l.newline = none := by decide
  have hlast : before.getLast? = some l.newline := by decide
  have hactive : (({ rules := noted } : Tracker).after before).active = none := by decide
  have hrun : l.Blank noted ['\t'] := by
    intro c hc
    obtain rfl : c = '\t' := by simpa using hc
    exact ⟨by decide, rfl⟩
  have hline : l.Idle noted line := @Layout.Idle.region l noted ['\t'] [' ', 'b'] '#' ⟨'#', '\n'⟩
    hrun rfl rfl (by decide)
  refine ⟨⟨hn, hnewline, hlast, hactive, hline⟩, ?_⟩
  rcases idle_transparent hn hnewline (Or.inr hlast) hactive hline none text with
    ⟨tokens, m, hfails, -⟩ | ⟨tokens, hs, -, -, hechoes, -⟩
  · refine absurd hfails (not_failsIn (n := 14) ?_ ?_)
    · decide +kernel
    · decide +kernel
  · exact ⟨tokens, hs, hechoes⟩

end Stream

end Offside
