import Offside.Proofs.Options
import Offside.Proofs.Regions

/-!
# Transforming twice

A text that has been transformed has no indentation left.  Where a line was indented there stand the
marks, and a mark is no whitespace, so the line starts with an empty run and fits the outermost
level.  Whatever else is read, a blank line or a region, is let out as it stands.  So a second
transformation lets everything out and opens no level, and it changes nothing.

The two transformations run in lockstep: the second is fed what the first lets out.  Between two
characters they have the same escape rules at work, because the marks open no region where they are
read again, and they agree about where lines start.

A text may end with whitespace that is still held back.  It is let out before the marks of the open
levels, and then the second transformation takes it for the indentation of these marks.

## Main definitions

* `Layout.endsInRun` — the last line has not got beyond its run.
* `Engine.Flat` — no level is open and nothing is held back.
* `Engine.Follows` — an analysis that has been fed what another has let out.

## Main results

* `Engine.Flat.feed` — a character that is not held back is let out by itself.
* `Engine.Follows.feed`, `Engine.Follows.feedAll` — the two analyses stay in lockstep.
* `transform_transform` — **transforming twice is transforming once**.
-/

namespace Offside

/-! ### Where a text ends -/

namespace Layout

variable {l : Layout} {t : Tracker} {before run : List CodePoint}

/-- The last of some lines is all run. -/
def endsInRun (l : Layout) (lines : List (List (CodePoint × Bool))) : Bool :=
  lines.getLast?.any fun line => line.all l.leads

/-- Behind a newline the text is cut. -/
theorem lines_append {first second : List (CodePoint × Bool)}
    (h : ∀ x ∈ first.getLast?, x.1 = l.newline) :
    l.lines (first ++ second) = l.lines first ++ l.lines second := by
  apply List.splitBy_append
  intro x hx y _
  simp [h x hx]

/-- Whitespace at the start of a line that nothing follows is the run of the last line. -/
theorem endsInRun_of_leads (hbefore : before = [] ∨ before.getLast? = some l.newline)
    (hrun : run ≠ []) (hleads : ∀ x ∈ (t.after before).labelled run, l.leads x = true) :
    l.endsInRun (l.lines (t.labelled (before ++ run))) = true := by
  have hcut : ∀ x ∈ (t.labelled before).getLast?, x.1 = l.newline := by
    intro x hx
    have hlast : before.getLast? = some x.1 := by
      rw [← t.map_fst_labelled before, List.getLast?_map, hx]
      rfl
    rcases hbefore with rfl | hnewline
    · simp at hlast
    · rw [hlast] at hnewline
      exact Option.some.inj hnewline
  have hne : l.lines ((t.after before).labelled run) ≠ [] := by
    intro hnil
    have hflat := l.flatten_lines ((t.after before).labelled run)
    rw [hnil, List.flatten_nil] at hflat
    apply hrun
    rw [← (t.after before).map_fst_labelled run, ← hflat, List.map_nil]
  rw [Tracker.labelled_append, lines_append hcut, endsInRun, List.getLast?_append_of_ne_nil _ hne,
    List.getLast?_eq_some_getLast hne, Option.any_some, List.all_eq_true]
  intro x hx
  apply hleads x
  rw [← l.flatten_lines ((t.after before).labelled run)]
  exact List.mem_flatten_of_mem (List.getLast_mem hne) hx

/-- What is written before a line is marks. -/
theorem char_of_mem_marks {before after : Nat} {x : Token} (h : x ∈ l.marks before after) :
    x.char ∈ [l.indentMark, l.dedentMark] := by
  rcases marked_of_mem_marks h with hrole | hchar | hchar
  · exact absurd hrole (role_of_mem_marks h)
  · simp [hchar]
  · simp [hchar]

end Layout

/-- The marks are no whitespace, and they open no region. -/
def Layout.Plain (l : Layout) (rules : List Rule) : Prop :=
  ∀ m ∈ [l.indentMark, l.dedentMark],
    m ∉ l.whitespace ∧ ({ rules := rules } : Tracker).opened m = none

instance (l : Layout) (rules : List Rule) : Decidable (l.Plain rules) :=
  List.decidableBAll _ _

namespace Engine

variable {e e' e₁ : Engine} {file : Option String} {c : CodePoint} {text run ms : List CodePoint}
  {tokens : List Token} {notices : List Notice}

/-! ### Whitespace that is held back -/

theorem tracker_observe (h : e.escapes c = false) : e.tracker.observe c = e.tracker :=
  congrArg tracker (observe_of_escapes_eq_false h)

/-- Characters that are not escaped leave the escape rules as they are. -/
theorem tracker_after (h : ∀ d ∈ text, e.escapes d = false) : e.tracker.after text = e.tracker := by
  induction text with
  | nil => rfl
  | cons c text ih =>
    rw [Tracker.after_cons, tracker_observe (h c List.mem_cons_self)]
    exact ih fun d hd => h d (List.mem_cons_of_mem _ hd)

/-- Whitespace that is held back belongs to a run. -/
theorem leads_of_holds (h : ∀ d ∈ run, e.holds d = true) :
    ∀ x ∈ e.tracker.labelled run, e.layout.leads x = true := by
  induction run with
  | nil => simp
  | cons c run ih =>
    rw [List.forall_mem_cons] at h
    obtain ⟨hesc, -, hmem⟩ := holds_iff.1 h.1
    have hesc' : e.tracker.escapes c = false := hesc
    rw [Tracker.labelled_cons, tracker_observe hesc, List.forall_mem_cons]
    refine ⟨?_, ih h.2⟩
    rw [Layout.leads, hesc', Bool.not_false, Bool.true_and]
    exact decide_eq_true hmem

/-- Where a line starts and nothing is held back, nothing has been read or a newline was the last
that was. -/
theorem atLine_of_lineStart (h : e.feedAll file text = ⟨tokens, .ok e', notices⟩)
    (hq : e'.queue = []) (hline : e'.lineStart = true) :
    text = [] ∨ text.getLast? = some e.layout.newline := by
  rcases List.eq_nil_or_concat text with rfl | ⟨before, c, rfl⟩
  · exact Or.inl rfl
  · rw [List.concat_eq_append] at h ⊢
    obtain ⟨out, e₁, told, tokens₁, notices₁, hbefore, hc, -⟩ := exists_of_feedAll_concat h
    have hholds : ¬ e₁.holds c = true := by
      intro hholds
      rw [feed_of_holds hholds] at hc
      obtain ⟨-, rfl, -⟩ : _ ∧ _ = e' ∧ _ := by simpa using hc
      simp [enqueue] at hq
    have hnewline : true = decide (c = e.layout.newline) := by
      rw [← hline, (lineStart_feed hc hholds).2, layout_feedAll hbefore]
    rw [List.getLast?_concat, of_decide_eq_true hnewline.symm]
    exact Or.inr rfl

/-- **Unless a text ends in a run, nothing is held back of it.** -/
theorem queue_eq_nil_of_endsInRun {l : Layout} {rules : List Rule}
    (hends : l.endsInRun (l.linesOf rules text) = false)
    (h : (fresh l rules).feedAll file text = ⟨tokens, .ok e, notices⟩)
    (hheld : ∀ d ∈ e.lead, e.holds d = true) : e.queue = [] := by
  obtain ⟨before, run, e₀, told, rfl, hbefore, hqueue, hrun⟩ := exists_held rfl h
  have he₀ : e₀.Leading := (leading_fresh l rules).feedAll hbefore
  obtain ⟨-, hline, -, -, htracker⟩ := of_feedAll_eq_nil hrun
  have hlead : e.lead = run := lead_of_feedAll_eq_nil hqueue hrun
  by_cases hne : run = []
  · subst hne
    obtain rfl : e₀ = e := by simpa using hrun
    exact hqueue
  · -- the whitespace that is held back would be all of the last line
    obtain ⟨c, hc⟩ := List.exists_mem_of_ne_nil run hne
    rw [hlead] at hheld
    have hstart : e₀.lineStart = true := by
      rw [← hline]
      exact (holds_iff.1 (hheld c hc)).2.1
    have hleads := leads_of_holds hheld
    rw [htracker, tracker_feedAll hbefore, layout_feedAll hrun, layout_feedAll hbefore] at hleads
    have hin := Layout.endsInRun_of_leads (atLine_of_lineStart hbefore hqueue hstart) hne hleads
    exact absurd (hends.symm.trans hin) Bool.false_ne_true

/-! ### A text without indentation -/

/-- No level is open and nothing is held back. -/
structure Flat (e : Engine) : Prop extends e.Leading where
  stack_eq : e.stack = {}
  queue_eq_nil : e.queue = []

theorem flat_fresh (l : Layout) (rules : List Rule) : (fresh l rules).Flat where
  __ := leading_fresh l rules
  stack_eq := rfl
  queue_eq_nil := rfl

/-- **A character that is not held back is let out by itself**, and no level is opened. -/
theorem Flat.feed (he : e.Flat) (hc : ¬ e.holds c = true) (file : Option String) :
    ∃ e' notices, e.feed file c = .ok ([.content c], e', notices) ∧ e'.Flat := by
  have hdue : e.due = [] := due_of_queue_nil he.queue_eq_nil
  rcases passes_or_decides hc with hpass | hdec
  · have hfeed := feed_of_passes hpass file
    rw [hdue, List.nil_append] at hfeed
    have hstack : (e.pass c).stack = {} := (e.stack_arrive c).trans he.stack_eq
    exact ⟨e.pass c, e.crossing c, hfeed, ⟨he.toLeading.feed hfeed, hstack, rfl⟩⟩
  · -- a line without indentation is on the outermost level
    have hfeed := feed_of_decides hdec file
    have hstack : ({} : Stack).advance? [] = some {} :=
      Stack.advance?_of_prefix (List.prefix_refl _)
    have hdepth : e.depth = 0 := congrArg Stack.depth he.stack_eq
    have hmarks : e.layout.marks 0 ({} : Stack).depth = [] := e.layout.marks_self 0
    rw [lead_of_queue_nil he.queue_eq_nil, he.stack_eq, hstack, hdue, hdepth] at hfeed
    simp only [hmarks, ite_self, List.nil_append] at hfeed
    exact ⟨_, _, hfeed, ⟨he.toLeading.feed hfeed, rfl, rfl⟩⟩

/-- Characters that are no whitespace are let out one by one. -/
theorem Flat.feedAll (he : e.Flat) (hms : ∀ m ∈ ms, m ∉ e.layout.whitespace)
    (file : Option String) :
    ∃ e' notices, e.feedAll file ms = ⟨ms.map Token.content, .ok e', notices⟩ ∧ e'.Flat := by
  induction ms generalizing e with
  | nil => exact ⟨e, [], rfl, he⟩
  | cons m ms ih =>
    have hm : ¬ e.holds m = true := fun h => hms m List.mem_cons_self (holds_iff.1 h).2.2
    obtain ⟨e₁, told, hfeed, he₁⟩ := he.feed hm file
    obtain ⟨e', notices, hrest, he'⟩ := ih he₁ fun d hd => by
      rw [layout_feed hfeed]
      exact hms d (List.mem_cons_of_mem _ hd)
    refine ⟨e', told ++ notices, ?_, he'⟩
    rw [feedAll_cons_of_ok hfeed, hrest]
    rfl

/-! ### Two analyses in lockstep -/

/-- The analysis `e₁` has been fed what `e` has let out, from which the whitespace of the indented
lines is gone.  So it is like `e` where nothing is held back and no level is open. -/
structure Follows (e e₁ : Engine) : Prop extends e₁.Flat where
  leading : e.Leading
  held : ∀ d ∈ e.lead, e.holds d = true
  layout_eq : e₁.layout = e.layout
  tracker_eq : e₁.tracker = e.tracker
  lineStart_eq : e₁.lineStart = e.lineStart

theorem follows_fresh (l : Layout) (rules : List Rule) :
    Follows (fresh l rules) (fresh l rules) where
  __ := flat_fresh l rules
  leading := leading_fresh l rules
  held := by simp [lead_of_queue_nil (e := fresh l rules) rfl]
  layout_eq := rfl
  tracker_eq := rfl
  lineStart_eq := rfl

/-- What is held back by the one has not come to the other yet. -/
theorem Follows.hold (h : Follows e e₁) (hc : e.holds c = true) : Follows (e.holdBack c) e₁ where
  __ := h.toFlat
  leading := h.leading.feed (feed_of_holds hc none)
  held := by
    intro d hd
    rw [holdBack, lead_enqueue, List.mem_append, List.mem_singleton] at hd
    rw [holds_holdBack]
    rcases hd with hd | rfl
    · exact h.held d hd
    · exact hc
  layout_eq := h.layout_eq.trans (e.layout_holdBack c).symm
  tracker_eq := h.tracker_eq.trans (e.tracker_holdBack c).symm
  lineStart_eq := h.lineStart_eq.trans (e.lineStart_holdBack c).symm

/-- Where both let out the same character last, they are in lockstep behind it. -/
theorem Follows.of_feed {d e₂ : Engine} {out : List Token} {told : List Notice} (h : Follows e e₁)
    (hc : ¬ e.holds c = true) (hfeed : e.feed file c = .ok (tokens, e', notices))
    (hlayout : d.layout = e.layout) (htracker : d.tracker = e.tracker) (hd : ¬ d.holds c = true)
    (hlast : d.feed file c = .ok (out, e₂, told)) (hflat : e₂.Flat) : Follows e' e₂ := by
  obtain ⟨hqueue, hline⟩ := lineStart_feed hfeed hc
  refine ⟨hflat, h.leading.feed hfeed, ?_, ?_, ?_, ?_⟩
  · simp [lead_of_queue_nil hqueue]
  · rw [layout_feed hlast, layout_feed hfeed, hlayout]
  · rw [tracker_feed hlast, tracker_feed hfeed, htracker]
  · rw [hline, (lineStart_feed hlast hd).2, hlayout]

/-- What is held back by the one is held back by the other, if it is fed it. -/
theorem Follows.feedAll_lead (h : Follows e e₁) (file : Option String) :
    ∃ d, e₁.feedAll file e.lead = ⟨[], .ok d, []⟩ ∧ d.lead = e.lead ∧ d.stack = {} ∧
      d.tracker = e.tracker ∧ d.lineStart = e.lineStart := by
  rcases hlead : e.lead with _ | ⟨c, run⟩
  · exact ⟨e₁, rfl, lead_of_queue_nil h.queue_eq_nil, h.stack_eq, h.tracker_eq, h.lineStart_eq⟩
  · have hheld := h.held
    rw [hlead] at hheld
    have hline : e.lineStart = true := (holds_iff.1 (hheld c List.mem_cons_self)).2.1
    have hleads := leads_of_holds hheld
    rw [← h.layout_eq, ← h.tracker_eq] at hleads
    obtain ⟨d, hfed, hd, hstack, hstart⟩ :=
      feedAll_run h.toLeading (h.lineStart_eq.trans hline) file hleads
    rw [lead_of_queue_nil h.queue_eq_nil, List.nil_append] at hd
    obtain ⟨-, -, -, -, htracker⟩ := of_feedAll_eq_nil hfed
    exact ⟨d, hfed, hd, hstack.trans h.stack_eq, htracker.trans h.tracker_eq,
      hstart.trans hline.symm⟩

/-- Marks that open no region are let out again. -/
theorem Follows.feedAll_marks (h : Follows e e₁) (hplain : e.layout.Plain e.tracker.rules)
    (hactive : e.tracker.active = none)
    (hms : ∀ m ∈ ms, m ∈ [e.layout.indentMark, e.layout.dedentMark])
    (file : Option String) :
    ∃ d notices, e₁.feedAll file ms = ⟨ms.map Token.content, .ok d, notices⟩ ∧ d.Flat ∧
      d.tracker = e.tracker := by
  have hnotMem : ∀ m ∈ ms, m ∉ e₁.layout.whitespace := by
    intro m hm
    rw [h.layout_eq]
    exact (hplain m (hms m hm)).1
  obtain ⟨d, notices, hfed, hflat⟩ := h.toFlat.feedAll hnotMem file
  refine ⟨d, notices, hfed, hflat, ?_⟩
  rw [tracker_feedAll hfed, h.tracker_eq]
  refine tracker_after fun m hm => ?_
  exact escapes_eq_false_iff.2 ⟨hactive, (hplain m (hms m hm)).2⟩

/-- **What a character lets out is let out again**, and the two stay in lockstep. -/
theorem Follows.feed (h : Follows e e₁) (hkeep : e.layout.keepWhitespace = false)
    (hplain : e.layout.Plain e.tracker.rules) (hfeed : e.feed file c = .ok (tokens, e', notices)) :
    ∃ e₂ told, e₁.feedAll file (Token.text tokens) =
      ⟨(Token.text tokens).map Token.content, .ok e₂, told⟩ ∧ Follows e' e₂ := by
  have hfeeds := feeds_feed e file c
  rw [hfeed] at hfeeds
  cases hfeeds with
  | hold hesc hline hc => exact ⟨e₁, [], rfl, h.hold (holds_iff.2 ⟨hesc, hline, hc⟩)⟩
  | pass hc =>
    -- what is let out is the whitespace and the character, which passes again
    obtain ⟨d, hfed, hlead, hstack, htracker, hline⟩ := h.feedAll_lead file
    have hlayout : d.layout = e.layout := (layout_feedAll hfed).trans h.layout_eq
    have hd : d.Leading := h.toLeading.feedAll hfed
    have hpass : d.Passes c := by
      rw [Passes, escapes, hlayout, htracker, hline]
      exact hc
    have hlast := feed_of_passes hpass file
    have hflat : (d.pass c).Flat := ⟨hd.pass hpass, (d.stack_arrive c).trans hstack, rfl⟩
    refine ⟨d.pass c, d.crossing c, ?_,
      h.of_feed hc.not_holds hfeed hlayout htracker hpass.not_holds hlast hflat⟩
    have htext : Token.text (e.due ++ [.content c]) = e.lead ++ [c] := by
      simp [Token.text, lead]
    rw [htext, feedAll_append hfed, feedAll_cons_of_ok hlast, hd.due_eq, hlead]
    simp
  | level hc stack hstack =>
    -- what is let out starts with the marks, which are no whitespace: the line is flat
    have hactive : e.tracker.active = none := (escapes_eq_false_iff.1 hc.escapes_eq).1
    have hmarks : ∀ m ∈ Token.text (e.layout.marks e.depth stack.depth),
        m ∈ [e.layout.indentMark, e.layout.dedentMark] := by
      intro m hm
      obtain ⟨t, ht, rfl⟩ := List.mem_map.1 hm
      exact Layout.char_of_mem_marks ht
    obtain ⟨d, told, hfed, hflat, htracker⟩ := h.feedAll_marks hplain hactive hmarks file
    have hlayout : d.layout = e.layout := (layout_feedAll hfed).trans h.layout_eq
    have hd : ¬ d.holds c = true := fun hholds => hc.notMem (hlayout ▸ (holds_iff.1 hholds).2.2)
    obtain ⟨e₂, said, hlast, hflat₂⟩ := hflat.feed hd file
    refine ⟨e₂, told ++ said, ?_,
      h.of_feed hc.not_holds hfeed hlayout htracker hd hlast hflat₂⟩
    have htext : Token.text (e.layout.marks e.depth stack.depth ++
        (if e.layout.keepWhitespace = true then e.due else []) ++ [.content c]) =
          Token.text (e.layout.marks e.depth stack.depth) ++ [c] := by
      simp [hkeep, Token.text]
    rw [htext, feedAll_append hfed, feedAll_cons_of_ok hlast]
    simp

/-- **What a text lets out is let out again.** -/
theorem Follows.feedAll (h : Follows e e₁) (hkeep : e.layout.keepWhitespace = false)
    (hplain : e.layout.Plain e.tracker.rules)
    (hfed : e.feedAll file text = ⟨tokens, .ok e', notices⟩) :
    ∃ e₂ told, e₁.feedAll file (Token.text tokens) =
      ⟨(Token.text tokens).map Token.content, .ok e₂, told⟩ ∧ Follows e' e₂ := by
  revert hkeep hplain e₁
  refine feedAll_induction (P := fun e _ tokens e' _ => ∀ {e₁}, Follows e e₁ →
    e.layout.keepWhitespace = false → e.layout.Plain e.tracker.rules → ∃ e₂ told,
      e₁.feedAll file (Token.text tokens) =
        ⟨(Token.text tokens).map Token.content, .ok e₂, told⟩ ∧ Follows e' e₂) ?_ ?_ hfed
  · intro e e₁ h _ _
    exact ⟨e₁, [], rfl, h⟩
  · intro e d e' c rest out tokens told notices hc ih e₁ h hkeep hplain
    obtain ⟨d₁, said, hout, hd⟩ := h.feed hkeep hplain hc
    have hlayout : d.layout = e.layout := layout_feed hc
    have hrules : d.tracker.rules = e.tracker.rules := by
      rw [tracker_feed hc, Tracker.rules_observe]
    obtain ⟨e₂, more, hrest, he₂⟩ := ih hd (hlayout ▸ hkeep) (by rwa [hlayout, hrules])
    refine ⟨e₂, said ++ more, ?_, he₂⟩
    have htext : Token.text (out ++ tokens) = Token.text out ++ Token.text tokens :=
      List.map_append
    rw [htext, feedAll_append hout, hrest, List.map_append]

end Engine

/-! ### The call -/

namespace Stream

open Engine

variable {l : Layout} {rules : List Rule} {name : Option String} {text u : List CodePoint}

/-- A text that is read to the end has been fed without an error. -/
theorem exists_of_read_eq_ok {e : Engine} (he : e.Leading) (hq : e.queue = [])
    (h : ((ofText name e text).read (-1)).outcome = .ok u) :
    ∃ tokens e' notices, e.feedAll name text = ⟨tokens, .ok e', notices⟩ ∧
      u = Token.text tokens ++ e'.lead ++ List.replicate e'.depth e'.layout.dedentMark := by
  rw [read_eq_drain, Reply.outcome_map] at h
  rcases hfed : e.feedAll name text with ⟨tokens, x | e', notices⟩
  · obtain ⟨before, c, rest, e', rfl, hbefore, hc⟩ := exists_of_feedAll_eq_error hfed
    rw [drain_of_feed_error he hq hbefore hc rest] at h
    cases h
  · obtain ⟨b, hdrain⟩ := drain_of_feedAll_ok he hq hfed
    rw [hdrain] at h
    refine ⟨tokens, e', notices, rfl, ?_⟩
    cases h
    simp [Token.text, lead, dedentToken]

/-- **What has been read is read again as it stands.** -/
theorem read_read (hkeep : l.keepWhitespace = false) (hplain : l.Plain rules)
    (hends : l.endsInRun (l.linesOf rules text) = false)
    (h : ((ofText name (.fresh l rules) text).read (-1)).outcome = .ok u) :
    ((ofText name (.fresh l rules) u).read (-1)).outcome = .ok u := by
  obtain ⟨tokens, e, notices, hfed, rfl⟩ := exists_of_read_eq_ok (leading_fresh l rules) rfl h
  have hlayout : e.layout = l := layout_feedAll hfed
  obtain ⟨e₁, told, hagain, hfollows⟩ := (follows_fresh l rules).feedAll hkeep hplain hfed
  have hqueue : e.queue = [] := queue_eq_nil_of_endsInRun hends hfed hfollows.held
  -- the marks at the end are let out one by one, whatever comes before them
  have hnotMem : ∀ m ∈ List.replicate e.depth l.dedentMark, m ∉ e₁.layout.whitespace := by
    intro m hm
    rw [List.eq_of_mem_replicate hm, hfollows.layout_eq, hlayout]
    exact (hplain l.dedentMark (by simp)).1
  obtain ⟨e₂, said, hmarks, hflat⟩ := hfollows.toFlat.feedAll hnotMem name
  have hall : (fresh l rules).feedAll name
      (Token.text tokens ++ List.replicate e.depth l.dedentMark) =
      ⟨(Token.text tokens ++ List.replicate e.depth l.dedentMark).map Token.content, .ok e₂,
        told ++ said⟩ := by
    rw [feedAll_append hagain, hmarks, List.map_append]
  obtain ⟨b, hdrain⟩ := drain_of_feedAll_ok (leading_fresh l rules) rfl hall
  have hdepth : e₂.depth = 0 := congrArg Stack.depth hflat.stack_eq
  rw [lead_of_queue_nil hqueue, List.append_nil, hlayout, read_eq_drain, Reply.outcome_map, hdrain,
    due_of_queue_nil hflat.queue_eq_nil, hdepth]
  simp [Except.map, Token.text]

end Stream

theorem eq_ok_of_mapError {ε ε' α : Type} {f : ε → ε'} {x : Except ε α} {a : α}
    (h : x.mapError f = .ok a) : x = .ok a := by
  cases x with
  | error => cases h
  | ok => exact congrArg Except.ok (Except.ok.inj h)

/-- **Transforming twice is transforming once.**  If the whitespace of the lines is not kept and the
marks are neither whitespace nor the start of a region, a text that has been transformed is left as
it is, unless the text before ended in a run. -/
theorem transform_transform {options : Options} {l : Layout} {rules : List Rule}
    (hoptions : options.Asks l rules) (hkeep : l.keepWhitespace = false) (hplain : l.Plain rules)
    {text u : List CodePoint} (hends : l.endsInRun (l.linesOf rules text) = false)
    (h : (transform { rest := text : TextSource } options).outcome = .ok u) :
    (transform { rest := u : TextSource } options).outcome = .ok u := by
  rw [hoptions.transform_text] at h ⊢
  have hread : ((Stream.ofText none (.fresh l rules) text).read (-1)).outcome = .ok u :=
    eq_ok_of_mapError h
  have hagain := Stream.read_read hkeep hplain hends hread
  exact congrArg (Except.mapError TransformError.read) hagain

/-- Hash signs escape the rest of their line, and parentheses what is between them. -/
def commentOptions : Options :=
  { lineEscapes := some (.text "#"), pairedEscapes := some (.list [.text "()"]) }

/-- A region over two lines, a blank line and a comment in nested blocks. -/
theorem transform_transform_comments :
    let text := "a\n\tb (\n c)\n \n   # d\n\t  e # f\n".codePoints
    let out := "a\n>b (\n c)\n \n   # d\n>e # f\n<<".codePoints
    (transform { rest := text : TextSource } commentOptions).outcome = .ok out ∧
      (transform { rest := out : TextSource } commentOptions).outcome = .ok out := by
  intro text out
  have hoptions : commentOptions.Asks {} [⟨'#', '\n'⟩, ⟨'(', ')'⟩] := by
    refine ⟨rfl, rfl, rfl, rfl, rfl, ['#'], [('(', ')')], ⟨_, rfl, by decide⟩, ⟨_, rfl, ?_⟩, rfl⟩
    exact .cons ⟨_, rfl, by decide⟩ .nil
  have hfirst : (transform { rest := text : TextSource } commentOptions).outcome = .ok out := by
    rw [hoptions.transform_text]
    let e := Engine.fresh {} [⟨'#', '\n'⟩, ⟨'(', ')'⟩]
    have hread : ((Stream.ofText none e text).read (-1)).outcome = .ok out := by decide +kernel
    exact congrArg (Except.mapError TransformError.read) hread
  have hplain : ({} : Layout).Plain [⟨'#', '\n'⟩, ⟨'(', ')'⟩] := by decide +kernel
  exact ⟨hfirst, transform_transform hoptions rfl hplain (by decide +kernel) hfirst⟩

/-- Whitespace at the end of the text stands before the marks of the open levels, and it indents
them when they are read again. -/
example :
    (transform { rest := "a\n b\n  ".codePoints : TextSource } {}).outcome.toOption =
        some "a\n>b\n  <".codePoints ∧
      (transform { rest := "a\n>b\n  <".codePoints : TextSource } {}).outcome.toOption =
        some "a\n>b\n><<".codePoints := by
  decide +kernel

end Offside
