import Offside.Proofs.Delivery

/-!
# Escape regions

A region of a text opens where no other is open, and it goes on to the next character that closes
it, or to the end of the text.  Within it indentation means nothing.  The opening character already
lets out what has been held back before it, as it was read, and from then on every character comes
by itself, whatever lines there are in the region.  So the region is echoed, with the whitespace
before it if it is the first of its line.

A region that closes does so within a line, unless it is the newline that closes it.  What follows
on this line decides nothing any more.

All this holds for whatever conventions are in force.  The marks, the whitespace and the newline may
open and close regions themselves.

## Main definitions

* `Region` — where the escape rules find a region in a text.

## Main results

* `Engine.lineStart_feedAll` — behind a newline the next line starts, however it was read.
* `Stream.region_echoed` — **regions are echoed, and they leave the levels alone**.
-/

namespace Offside

/-! ### Regions of a text -/

/-- A text goes on with the character `opening` behind `before`, then with `body`, and then with
`rest`.  No region is open before `opening`, which opens one for the rule `r`, and the region ends
with the first character of `body` that closes it, or with the text. -/
structure Region (rules : List Rule) (before : List CodePoint) (opening : CodePoint)
    (body rest : List CodePoint) (r : Rule) : Prop where
  active_eq : (({ rules := rules } : Tracker).after before).active = none
  opened_eq : ({ rules := rules } : Tracker).opened opening = some r
  notMem : r.closing ∉ body.dropLast
  ends : r.closing ∈ body ∨ rest = []

/-- A region that closes ends with the character that closes it. -/
theorem Region.exists_of_mem {rules : List Rule} {before : List CodePoint} {opening : CodePoint}
    {body rest : List CodePoint} {r : Rule} (h : Region rules before opening body rest r)
    (hclosing : r.closing ∈ body) : ∃ inner, body = inner ++ [r.closing] := by
  have hnotMem := h.notMem
  rcases List.eq_nil_or_concat body with rfl | ⟨inner, c, rfl⟩
  · simp at hclosing
  · rw [List.concat_eq_append] at hclosing hnotMem ⊢
    rw [List.dropLast_concat] at hnotMem
    obtain rfl : r.closing = c := by simpa [hnotMem] using hclosing
    exact ⟨inner, rfl⟩

theorem Tracker.rules_after (t : Tracker) (text : List CodePoint) :
    (t.after text).rules = t.rules := by
  induction text generalizing t with
  | nil => rfl
  | cons c text ih => rw [after_cons, ih, rules_observe]

theorem Tracker.opened_congr {t t' : Tracker} (h : t'.rules = t.rules) (c : CodePoint) :
    t'.opened c = t.opened c := by
  rw [opened, h, opened]

namespace Engine

variable {e e' : Engine} {file : Option String} {text rest : List CodePoint} {tokens : List Token}
  {notices : List Notice}

/-- Behind a newline the next line starts, however the newline was read. -/
theorem lineStart_feedAll (hlast : text.getLast? = some e.layout.newline)
    (h : e.feedAll file text = ⟨tokens, .ok e', notices⟩) : e'.lineStart = true := by
  obtain ⟨before, rfl⟩ := List.getLast?_eq_some_iff.1 hlast
  obtain ⟨out, e₁, told, tokens₁, notices₁, hbefore, hc, -⟩ := exists_of_feedAll_concat h
  have hlayout : e₁.layout = e.layout := layout_feedAll hbefore
  by_cases hholds : e₁.holds e.layout.newline = true
  · rw [feed_of_holds hholds] at hc
    obtain ⟨-, rfl, -⟩ : _ ∧ _ = e' ∧ _ := by simpa using hc
    exact (e₁.lineStart_arrive _).trans (holds_iff.1 hholds).2.1
  · rw [(lineStart_feed hc hholds).2, hlayout, decide_eq_true rfl]

/-! ### The analysis after characters that pass -/

theorem passAll_concat (e : Engine) (text : List CodePoint) (c : CodePoint) :
    e.passAll (text ++ [c]) = (e.passAll text).pass c := by
  simp [passAll]

theorem queue_passAll (hq : e.queue = []) (text : List CodePoint) :
    (e.passAll text).queue = [] := by
  rcases List.eq_nil_or_concat text with rfl | ⟨before, c, rfl⟩
  · exact hq
  · rw [List.concat_eq_append, passAll_concat]
    rfl

theorem layout_passAll (e : Engine) (text : List CodePoint) :
    (e.passAll text).layout = e.layout := by
  induction text generalizing e with
  | nil => rfl
  | cons c text ih => exact (ih (e.pass c)).trans (e.layout_pass c)

theorem Leading.passAll (he : e.Leading) (h : e.Passing text) : (e.passAll text).Leading := by
  induction text generalizing e with
  | nil => exact he
  | cons c text ih => exact ih (he.pass h.1) h.2

end Engine

namespace Stream

open Engine

variable {rules : List Rule} {before : List CodePoint} {opening : CodePoint}
  {body rest : List CodePoint}
  {r : Rule} {l : Layout} {name : Option String} {tokens : List Token} {e : Engine}
  {notices : List Notice}

/-- Behind `before` a region is let out as it was read. -/
theorem passing_region (h : Region rules before opening body rest r)
    (hfed : (fresh l rules).feedAll name before = ⟨tokens, .ok e, notices⟩) :
    e.Passing (opening :: body) := by
  have htracker : e.tracker = ({ rules := rules } : Tracker).after before := tracker_feedAll hfed
  have hopened : e.tracker.opened opening = some r := by
    rw [Tracker.opened_congr _ opening, h.opened_eq]
    rw [htracker, Tracker.rules_after]
  have hactive : (e.pass opening).tracker.active = some r := by
    rw [tracker_pass, Tracker.observe, htracker, h.active_eq, ← htracker]
    exact hopened
  refine ⟨Or.inl ?_, passing_of_active hactive h.notMem⟩
  simp [escapes, Tracker.escapes, hopened]

/-- What is let out and held back of the text before a region is handed out, and the region is
echoed, with what was held back. -/
theorem echoes_region (h : Region rules before opening body rest r)
    (hfed : (fresh l rules).feedAll name before = ⟨tokens, .ok e, notices⟩) :
    let s := ofText name (fresh l rules) (before ++ opening :: (body ++ rest))
    s.outcomes tokens.length = tokens.map (fun t => .ok (some t)) ∧
      (s.after tokens.length).Echoes (e.lead ++ opening :: body) ∧
      (s.after tokens.length).after (e.lead ++ opening :: body).length =
        ofText name (e.passAll (opening :: body)) rest := by
  intro s
  have hfresh : (fresh l rules).Leading := leading_fresh l rules
  obtain ⟨start, run, e₀, told, rfl, hstart, hqueue, hrun⟩ := exists_held rfl hfed
  have hlead : e.lead = run := lead_of_feedAll_eq_nil hqueue hrun
  obtain ⟨houtcomes, hafter⟩ :=
    outcomes_of_feedAll hfresh rfl hstart hqueue (run ++ opening :: (body ++ rest))
  obtain ⟨hechoes, hbehind⟩ :=
    echoes_run (hfresh.feedAll hstart) hqueue hrun (passing_region h hfed) rest
  have hs : s = ofText name (fresh l rules) (start ++ (run ++ opening :: (body ++ rest))) := by
    simp only [s, List.append_assoc]
  rw [hs, hafter, hlead]
  exact ⟨houtcomes, hechoes, hbehind⟩

/-- The whitespace between the start of a line and a region is held back when the region comes. -/
theorem lead_of_blank {head blank : List CodePoint}
    (hhead : head = [] ∨ head.getLast? = some l.newline)
    (hblank : ∀ x ∈ (({ rules := rules } : Tracker).after head).labelled blank, l.leads x = true)
    (hfed : (fresh l rules).feedAll name (head ++ blank) = ⟨tokens, .ok e, notices⟩) :
    ∃ run, e.lead = run ++ blank ∧
      (tokens ++ run.map Token.content).getLast? = head.getLast?.map Token.content := by
  obtain ⟨out, e₁, told, tokens₁, notices₁, hfed₁, hrest, rfl⟩ := exists_of_feedAll_append hfed
  have he₁ : e₁.Leading := (leading_fresh l rules).feedAll hfed₁
  have htracker : e₁.tracker = ({ rules := rules } : Tracker).after head := tracker_feedAll hfed₁
  have hlayout : e₁.layout = l := layout_feedAll hfed₁
  have hline : e₁.lineStart = true := by
    rcases hhead with rfl | hlast
    · obtain ⟨-, rfl, -⟩ : [] = out ∧ fresh l rules = e₁ ∧ _ := by simpa using hfed₁
      rfl
    · exact lineStart_feedAll hlast hfed₁
  have hleads : ∀ x ∈ e₁.tracker.labelled blank, e₁.layout.leads x = true := by
    rw [htracker, hlayout]
    exact hblank
  obtain ⟨e₂, hheld, hlead, -, -⟩ := feedAll_run he₁ hline name hleads
  rw [hheld, Fed.mk.injEq] at hrest
  obtain ⟨rfl, he₂, -⟩ := hrest
  obtain rfl : e₂ = e := by simpa using he₂
  refine ⟨e₁.lead, hlead, ?_⟩
  rw [List.append_nil, ← he₁.due_eq]
  rcases hhead with rfl | hlast
  · obtain ⟨rfl, rfl, -⟩ : [] = out ∧ fresh l rules = e₁ ∧ _ := by simpa using hfed₁
    rfl
  · obtain ⟨start, rfl⟩ := List.getLast?_eq_some_iff.1 hlast
    rw [getLast?_feedAll hfed₁]
    simp

/-- **Regions are echoed, and they leave the levels alone.**  Unless reading fails in the text
before a region, the region is handed out as it stands and the levels are the same all the while.
If only whitespace that is not escaped stands between the start of a line and the region, it is
echoed too, and the newline before it, if there is one, is handed out right before it.  Behind a
region that closes within a line, the rest of that line is echoed with its newline.  A region that
does not close ends with the text, and then the marks of the open levels come, and nothing else. -/
theorem region_echoed (h : Region rules before opening body rest r) (l : Layout)
    (name : Option String) :
    let s := ofText name (fresh l rules) (before ++ opening :: (body ++ rest))
    (∃ tokens m, s.FailsIn before (opening :: (body ++ rest)) tokens m) ∨
      ∃ tokens : List Token,
        let first := s.after tokens.length
        let behind := first.after (opening :: body).length
        s.outcomes tokens.length = tokens.map (fun t => .ok (some t)) ∧
        first.Echoes (opening :: body) ∧
        behind.engine.queue = [] ∧ behind.source.rest = rest ∧
        (∀ head blank, before = head ++ blank → (head = [] ∨ head.getLast? = some l.newline) →
          (∀ x ∈ (({ rules := rules } : Tracker).after head).labelled blank, l.leads x = true) →
          ∃ earlier, tokens = earlier ++ blank.map .content ∧
            earlier.getLast? = head.getLast?.map .content ∧
            (s.after earlier.length).Echoes blank) ∧
        (r.closing ∈ body → r.closing ≠ l.newline → ∀ line tail, rest = line ++ tail →
          l.newline ∉ line.dropLast → behind.Echoes line) ∧
        (r.closing ∉ body → rest = [] ∧ behind.drain.2.outcome = .ok () ∧
          behind.drain.1 = List.replicate behind.engine.depth ⟨.dedent, l.dedentMark⟩) := by
  intro s
  have hfresh : (fresh l rules).Leading := leading_fresh l rules
  rcases hfed : (fresh l rules).feedAll name before with ⟨tokens, x | e, notices⟩
  · -- a line before the region does not fit
    obtain ⟨m, -, hfails⟩ := failsIn_of_feedAll hfresh rfl hfed
    exact Or.inl ⟨tokens, m, hfails _⟩
  · refine Or.inr ⟨tokens ++ e.lead.map .content, ?_⟩
    have he : e.Leading := hfresh.feedAll hfed
    have hpassing := passing_region h hfed
    obtain ⟨houtcomes, hechoes, hbehind⟩ := echoes_region h hfed
    obtain ⟨hlead, hregion⟩ := hechoes.of_append
    have hn : (tokens ++ e.lead.map Token.content).length = tokens.length + e.lead.length := by
      simp
    intro first behind
    -- first what was held back before the region comes out, then the region itself
    have hfirst : first = (s.after tokens.length).after e.lead.length := by
      rw [← after_add, ← hn]
    have hbehind : behind = ofText name (e.passAll (opening :: body)) rest := by
      rw [← hbehind, List.length_append, after_add, ← hfirst]
    have he' : (e.passAll (opening :: body)).Leading := he.passAll hpassing
    have hqueue : (e.passAll (opening :: body)).queue = [] := queue_passAll rfl body
    have hlayout : (e.passAll (opening :: body)).layout = l :=
      (e.layout_passAll _).trans (layout_feedAll hfed)
    refine ⟨?_, ?_, by rw [hbehind]; exact hqueue, by rw [hbehind]; rfl, ?_, ?_, ?_⟩
    · rw [hn, outcomes_add, houtcomes, hlead.outcomes_eq, List.map_append, List.map_map]
      rfl
    · rw [hfirst]
      exact hregion
    · -- whitespace before the region has been held back, so it is the end of what is queued
      rintro head blank rfl hhead hblank
      obtain ⟨run, hrun, hlast⟩ := lead_of_blank hhead hblank hfed
      refine ⟨tokens ++ run.map Token.content, by rw [hrun]; simp, hlast, ?_⟩
      rw [hrun] at hlead
      have hechoes := hlead.of_append.2
      rwa [← after_add, ← List.length_map (f := Token.content), ← List.length_append] at hechoes
    · rintro hclosing hne line tail rfl hline
      -- the region has ended with another character than the newline, so no line starts
      obtain ⟨inner, rfl⟩ := h.exists_of_mem hclosing
      have hstart : (e.passAll (opening :: (inner ++ [r.closing]))).lineStart = false := by
        rw [← List.cons_append, passAll_concat, lineStart_pass, layout_passAll, layout_feedAll hfed]
        exact decide_eq_false hne
      rw [hbehind]
      refine (echoes_passing he' hqueue (passing_of_lineStart hstart ?_) tail).1
      rwa [hlayout]
    · -- the region ends with the text: the marks of the open levels are all that is left
      intro hclosing
      obtain rfl : rest = [] := h.ends.resolve_left hclosing
      have hnil := feedAll_nil (e.passAll (opening :: body)) name
      obtain ⟨b, hdrain⟩ := drain_of_feedAll_ok he' hqueue hnil
      rw [hbehind, hdrain, due_of_queue_nil hqueue]
      refine ⟨rfl, rfl, ?_⟩
      rw [dedentToken, hlayout]
      rfl

/-- Rules for regions in parentheses and for the rest of a line behind a hash sign. -/
def noted : List Rule := [⟨'(', ')'⟩, ⟨'#', '\n'⟩]

/-- A region over two lines behind whitespace that fits no level: it is echoed with that whitespace
and with the rest of its last line. -/
theorem region_echoed_misaligned :
    Region noted "a\n  b\n\t" '(' "\n # c)" " d\n  e" ⟨'(', ')'⟩ ∧
      ∃ n, ((ofText none (fresh {} noted) ("a\n  b\n\t".codePoints ++ .char '(' ::
        ("\n # c)".codePoints ++ " d\n  e".codePoints))).after n).Echoes "\t(\n # c) d\n" := by
  have h : Region noted "a\n  b\n\t" '(' "\n # c)" " d\n  e" ⟨'(', ')'⟩ := by
    constructor <;> decide +kernel
  refine ⟨h, ?_⟩
  rcases region_echoed h {} none with
    ⟨tokens, m, hfails⟩ | ⟨tokens, -, hregion, -, -, hblank, hline, -⟩
  · refine absurd hfails (not_failsIn (n := 19) ?_ ?_)
    · decide +kernel
    · decide +kernel
  · obtain ⟨earlier, rfl, -, hwhitespace⟩ :=
      hblank "a\n  b\n".codePoints "\t".codePoints rfl (Or.inr rfl) (by decide +kernel)
    have hrest := hline (by decide) (by decide) " d\n".codePoints "  e".codePoints rfl (by decide)
    rw [List.length_append, List.length_map, after_add] at hregion hrest
    have hechoes := hwhitespace.append hregion
    rw [← after_add, ← List.length_append] at hrest
    exact ⟨earlier.length, hechoes.append hrest⟩

end Stream

end Offside
