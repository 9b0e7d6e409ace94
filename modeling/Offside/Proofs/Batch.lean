import Offside.Proofs.Feed
import Offside.Proofs.Lines

/-!
# Streaming and rendering

Reading a text to the end, one character at a time and with whitespace held back, gives what
rendering its lines gives.  The proof feeds one line after the other: within a line every
character is let out as it is read, and at its start the run is held back until the character
behind it decides what becomes of it.

If the newline is whitespace itself, runs go over several lines and the two differ, so throughout
the newline is not among the whitespace.

## Main results

* `Engine.AtLine.feedAll_lines` — feeding lines that are rendered lets out their rendering.
* `Engine.AtLine.feed_misfit` — a malformed line fails at the character behind its run.
* `Stream.drain_of_render_eq_some`, `Stream.drain_of_render_eq_none` — reading to the end.
* `Stream.read_eq_renderAll` — **the text read is the rendering of the lines.**
-/

namespace Offside

namespace Engine

variable {e e' : Engine} {file : Option String} {c : CodePoint} {text rest : List CodePoint}
  {tokens : List Token} {notices : List Notice}

/-! ### Escape rules and places -/

/-- A newline starts the next line. -/
theorem place_feed_newline (h : e.feed file e.layout.newline = .ok (tokens, e', notices)) :
    e'.line = e.line + 1 ∧ e'.column = 0 := by
  have hfeeds := feeds_feed e file e.layout.newline
  have harrive : e.arrive e.layout.newline = { e with line := e.line + 1, column := 0 } :=
    if_pos rfl
  rw [h] at hfeeds
  cases hfeeds with
  | hold => simp [enqueue, harrive]
  | pass => simp [pass, delivered, observe, harrive]
  | level hdec => exact absurd rfl hdec.ne_newline

/-- Any other character is one more of its line. -/
theorem place_feed (h : e.feed file c = .ok (tokens, e', notices)) (hc : c ≠ e.layout.newline) :
    e'.line = e.line ∧ e'.column = e.column + 1 := by
  have hfeeds := feeds_feed e file c
  have harrive : e.arrive c = { e with column := e.column + 1 } := if_neg hc
  rw [h] at hfeeds
  cases hfeeds with
  | hold => simp [enqueue, harrive]
  | pass => simp [pass, delivered, observe, harrive]
  | level => simp [level, delivered, relevel, harrive]

theorem tracker_feedAll (h : e.feedAll file text = ⟨tokens, .ok e', notices⟩) :
    e'.tracker = e.tracker.after text := by
  refine feedAll_induction (P := fun e text _ e' _ => e'.tracker = e.tracker.after text) ?_ ?_ h
  · intro e
    rfl
  · intro e e₁ e' c rest out tokens told notices hc ih
    rw [ih, tracker_feed hc, Tracker.after_cons]

/-- The lines are counted by their newlines. -/
theorem line_feedAll (h : e.feedAll file text = ⟨tokens, .ok e', notices⟩) :
    e'.line = e.line + text.count e.layout.newline := by
  refine feedAll_induction
    (P := fun e text _ e' _ => e'.line = e.line + text.count e.layout.newline) ?_ ?_ h
  · intro e
    rfl
  · intro e e₁ e' c rest out tokens told notices hc ih
    rw [ih, layout_feed hc]
    by_cases hnl : c = e.layout.newline
    · subst hnl
      rw [(place_feed_newline hc).1, List.count_cons_self]
      omega
    · rw [(place_feed hc hnl).1, List.count_cons_of_ne hnl]

/-- Where there is no newline, the characters of the line are counted. -/
theorem column_feedAll (h : e.feedAll file text = ⟨tokens, .ok e', notices⟩)
    (hn : e.layout.newline ∉ text) : e'.column = e.column + text.length := by
  revert hn
  refine feedAll_induction (P := fun e text _ e' _ => e.layout.newline ∉ text →
    e'.column = e.column + text.length) ?_ ?_ h
  · intro e _
    rfl
  · intro e e₁ e' c rest out tokens told notices hc ih hn
    rw [List.mem_cons, not_or] at hn
    have hrest : e₁.layout.newline ∉ rest := by
      rw [layout_feed hc]
      exact hn.2
    rw [ih hrest, (place_feed hc (Ne.symm hn.1)).2, List.length_cons]
    omega

/-! ### The parts of a line -/

/-- The analysis stands at the start of a line, and nothing is held back. -/
structure AtLine (e : Engine) : Prop extends e.Leading where
  lineStart_eq : e.lineStart = true
  queue_eq_nil : e.queue = []
  column_eq : e.column = 0

theorem atLine_fresh (l : Layout) (rules : List Rule) : (fresh l rules).AtLine where
  __ := leading_fresh l rules
  lineStart_eq := rfl
  queue_eq_nil := rfl
  column_eq := rfl

/-- The whitespace that starts a line is held back. -/
theorem feedAll_run (he : e.Leading) (hline : e.lineStart = true) (file : Option String)
    (h : ∀ x ∈ e.tracker.labelled text, e.layout.leads x = true) :
    ∃ e', e.feedAll file text = ⟨[], .ok e', []⟩ ∧ e'.lead = e.lead ++ text ∧
      e'.stack = e.stack ∧ e'.lineStart = true := by
  induction text generalizing e with
  | nil => exact ⟨e, rfl, by simp, rfl, hline⟩
  | cons c text ih =>
    rw [Tracker.labelled_cons] at h
    obtain ⟨hesc, hc⟩ : e.escapes c = false ∧ c ∈ e.layout.whitespace := by
      simpa [Layout.leads, escapes] using h _ List.mem_cons_self
    have hfeed := feed_of_holds (holds_iff.2 ⟨hesc, hline, hc⟩) file
    have htracker : ((e.arrive c).enqueue (some (.content c))).tracker = e.tracker.observe c :=
      tracker_feed hfeed
    have hlayout : ((e.arrive c).enqueue (some (.content c))).layout = e.layout :=
      layout_feed hfeed
    obtain ⟨e', hrest, hlead, hstack, hline'⟩ := ih (he.feed hfeed) (by simpa [enqueue] using hline)
      fun x hx => by
        rw [htracker] at hx
        rw [hlayout]
        exact h x (List.mem_cons_of_mem _ hx)
    refine ⟨e', ?_, ?_, ?_, hline'⟩
    · rw [feedAll_cons_of_ok hfeed, hrest]
      rfl
    · rw [hlead, lead_enqueue, List.append_assoc, List.singleton_append]
    · rw [hstack]
      exact e.stack_arrive c

/-- Behind the start of a line every character is let out, and the newline starts another. -/
theorem feedAll_tail (he : e.Leading) (hline : e.lineStart = false) (file : Option String)
    (h : ∀ c ∈ text.dropLast, c ≠ e.layout.newline) :
    ∃ e' notices, e.feedAll file text = ⟨text.map Token.content, .ok e', notices⟩ ∧
      e'.stack = e.stack ∧ e'.queue = [] ∧
      (text.getLast? = some e.layout.newline → e'.AtLine) := by
  induction text generalizing e with
  | nil => exact ⟨e, [], rfl, rfl, he.queue_nil hline, by simp⟩
  | cons c text ih =>
    have hfeed := feed_of_passes (Or.inr (Or.inl hline)) file (c := c)
    have hdue : e.due = [] := due_of_queue_nil (he.queue_nil hline)
    have hlayout : (e.pass c).layout = e.layout := layout_feed hfeed
    have hstack : (e.pass c).stack = e.stack := e.stack_arrive c
    rw [hdue, List.nil_append] at hfeed
    cases text with
    | nil =>
      refine ⟨e.pass c, e.crossing c, ?_, hstack, rfl, ?_⟩
      · rw [feedAll_cons_of_ok hfeed]
        simp
      · intro hlast
        -- the last character may be the newline, and then the next line has begun
        obtain rfl : c = e.layout.newline := by simpa using hlast
        exact ⟨he.feed hfeed, by simp [pass, delivered, observe], rfl, (place_feed_newline hfeed).2⟩
    | cons d text =>
      have hc : c ≠ e.layout.newline := h c (by simp)
      have hline' : (e.pass c).lineStart = false := by simpa [pass, delivered, observe] using hc
      obtain ⟨e', notices, hrest, hstack', hqueue, hnl⟩ := ih (he.feed hfeed) hline' fun x hx => by
        rw [hlayout]
        exact h x (by simp [hx])
      refine ⟨e', e.crossing c ++ notices, ?_, hstack'.trans hstack, hqueue, ?_⟩
      · rw [feedAll_cons_of_ok hfeed, hrest]
        rfl
      · rw [hlayout] at hnl
        exact hnl

/-- The rest of a line behind its first character `c` that was let out. -/
theorem feedAll_behind (he : e.Leading) (hq : e.queue = [])
    (hline : e.lineStart = decide (c = e.layout.newline))
    (hcolumn : c = e.layout.newline → e.column = 0) (file : Option String)
    (h : ∀ d ∈ (c :: text).dropLast, d ≠ e.layout.newline) :
    ∃ e' notices, e.feedAll file text = ⟨text.map Token.content, .ok e', notices⟩ ∧
      e'.stack = e.stack ∧ e'.queue = [] ∧
      ((c :: text).getLast? = some e.layout.newline → e'.AtLine) := by
  cases text with
  | nil =>
    refine ⟨e, [], rfl, rfl, hq, fun hlast => ?_⟩
    have hc : c = e.layout.newline := by simpa using hlast
    exact ⟨he, by rw [hline, decide_eq_true hc], hq, hcolumn hc⟩
  | cons d text =>
    have hc : c ≠ e.layout.newline := h c (by simp)
    have hline' : e.lineStart = false := by rw [hline, decide_eq_false hc]
    exact feedAll_tail he hline' file fun x hx => h x (by simp [hx])

/-- At the start of a line its run is held back, and the body is what is left to be fed. -/
theorem AtLine.feedAll_run (he : e.AtLine) (file : Option String) (text : List CodePoint) :
    ∃ e', text = e.layout.run (e.tracker.labelled text) ++ e.layout.body (e.tracker.labelled text) ∧
      e.feedAll file (e.layout.run (e.tracker.labelled text)) = ⟨[], .ok e', []⟩ ∧
      e'.lead = e.layout.run (e.tracker.labelled text) ∧ e'.stack = e.stack ∧
      e'.lineStart = true ∧
      e'.tracker.labelled (e.layout.body (e.tracker.labelled text)) =
        (e.tracker.labelled text).dropWhile e.layout.leads := by
  obtain ⟨u, v, htext, hu, hv⟩ := Tracker.exists_of_labelled_eq_append
    (List.takeWhile_append_dropWhile (p := e.layout.leads) (l := e.tracker.labelled text)).symm
  have hrun : e.layout.run (e.tracker.labelled text) = u := by
    rw [Layout.run, ← hu, Tracker.map_fst_labelled]
  have hbody : e.layout.body (e.tracker.labelled text) = v := by
    rw [Layout.body, ← hv, Tracker.map_fst_labelled]
  have hleads : ∀ x ∈ e.tracker.labelled u, e.layout.leads x = true := by
    rw [hu]
    exact List.all_eq_true.1 List.all_takeWhile
  obtain ⟨e', hfeed, hlead, hstack, hline⟩ :=
    Engine.feedAll_run he.toLeading he.lineStart_eq file hleads
  rw [lead_of_queue_nil he.queue_eq_nil, List.nil_append] at hlead
  rw [hrun, hbody]
  exact ⟨e', htext, hfeed, hlead, hstack, hline, by rw [tracker_feedAll hfeed, hv]⟩

/-- A line from the first character `d` behind its run on, if that character lets something out. -/
theorem AtLine.feedAll_of_feed (he : e.AtLine) {d : CodePoint} {tail run : List CodePoint}
    {e₁ e₂ : Engine} {told : List Notice} (htext : text = run ++ d :: tail)
    (hline : ∀ c ∈ text.dropLast, c ≠ e.layout.newline)
    (hrun : e.feedAll file run = ⟨[], .ok e₁, []⟩) (hd : e₁.feed file d = .ok (tokens, e₂, told))
    (hqueue : e₂.queue = []) (hstart : e₂.lineStart = decide (d = e₁.layout.newline)) :
    ∃ e' notices, e.feedAll file text = ⟨tokens ++ tail.map Token.content, .ok e', notices⟩ ∧
      e'.stack = e₂.stack ∧ e'.queue = [] ∧
      (text.getLast? = some e.layout.newline → e'.AtLine) := by
  have he₂ : e₂.Leading := (he.toLeading.feedAll hrun).feed hd
  have hlayout₁ : e₁.layout = e.layout := layout_feedAll hrun
  have hlayout₂ : e₂.layout = e.layout := (layout_feed hd).trans hlayout₁
  have htail : ∀ x ∈ (d :: tail).dropLast, x ≠ e₂.layout.newline := by
    intro x hx
    rw [hlayout₂]
    refine hline x ?_
    rw [htext, List.dropLast_append_of_ne_nil (List.cons_ne_nil d tail)]
    exact List.mem_append_right _ hx
  have hcolumn : d = e₂.layout.newline → e₂.column = 0 := by
    intro hnl
    rw [hnl, hlayout₂, ← hlayout₁] at hd
    exact (place_feed_newline hd).2
  obtain ⟨e', notices, hrest, hstack, hqueue', hnl⟩ :=
    feedAll_behind he₂ hqueue (by rw [hstart, hlayout₁, hlayout₂]) hcolumn file htail
  have hbody : e₁.feedAll file (d :: tail) =
      ⟨tokens ++ tail.map Token.content, .ok e', told ++ notices⟩ := by
    rw [feedAll_cons_of_ok hd, hrest]
  refine ⟨e', told ++ notices, ?_, hstack, hqueue', fun hlast => ?_⟩
  · rw [htext, feedAll_append hrun, hbody, List.nil_append, List.nil_append]
  · rw [htext, List.getLast?_append_of_ne_nil _ (List.cons_ne_nil d tail)] at hlast
    exact hnl (by rw [hlast, hlayout₂])

/-- **A line without content** is let out as it was read and leaves the levels alone. -/
theorem AtLine.feedAll_blank (he : e.AtLine) (hn : e.layout.newline ∉ e.layout.whitespace)
    (file : Option String) (hline : ∀ c ∈ text.dropLast, c ≠ e.layout.newline)
    (hblank : ¬ e.layout.isContent (e.tracker.labelled text) = true) :
    ∃ out e' notices, e.feedAll file text = ⟨out, .ok e', notices⟩ ∧
      out ++ e'.due = text.map Token.content ∧ e'.stack = e.stack ∧
      (text.getLast? = some e.layout.newline → e'.AtLine) := by
  obtain ⟨e₁, htext, hrun, hlead, hstack, -, hlabels⟩ := he.feedAll_run file text
  have he₁ : e₁.Leading := he.toLeading.feedAll hrun
  have hlayout : e₁.layout = e.layout := layout_feedAll hrun
  cases hbody : e.layout.body (e.tracker.labelled text) with
  | nil =>
    -- the line is whitespace to its end, so it is the last one and all of it is held back
    rw [hbody, List.append_nil] at htext
    refine ⟨[], e₁, [], by rw [htext, hrun], ?_, hstack, fun hlast => ?_⟩
    · rw [List.nil_append, he₁.due_eq, hlead, ← htext]
    · rw [htext] at hlast
      exact absurd (Layout.mem_whitespace_of_mem_run (List.mem_of_getLast? hlast)) hn
  | cons d tail =>
    -- the line goes on, but with a character that does not decide
    rw [hbody] at htext hlabels
    have hd : e₁.Passes d := by
      rw [Layout.isContent, ← hlabels, Tracker.labelled_cons] at hblank
      by_cases hesc : e₁.escapes d = true
      · exact Or.inl hesc
      · have hesc' : e₁.tracker.escapes d = false := by simpa [escapes] using hesc
        have hnl : d = e.layout.newline := by simpa [hesc'] using hblank
        rw [Passes, hlayout, hnl]
        exact Or.inr (Or.inr ⟨rfl, hn⟩)
    obtain ⟨e', notices, hfeed, hstack', hqueue, hlast⟩ := he.feedAll_of_feed htext hline hrun
      (feed_of_passes hd file) rfl (by simp [pass, delivered, observe])
    refine ⟨_, e', notices, hfeed, ?_, ?_, hlast⟩
    · rw [due_of_queue_nil hqueue, he₁.due_eq, hlead]
      conv => rhs; rw [htext]
      simp
    · rw [hstack', ← hstack]
      exact e₁.stack_arrive d

/-- The character behind the run of a line with content decides about the levels. -/
theorem AtLine.exists_of_isContent (he : e.AtLine) (file : Option String)
    (hcontent : e.layout.isContent (e.tracker.labelled text) = true) :
    ∃ d tail e₁, text = e.layout.run (e.tracker.labelled text) ++ d :: tail ∧
      e.layout.body (e.tracker.labelled text) = d :: tail ∧
      e.feedAll file (e.layout.run (e.tracker.labelled text)) = ⟨[], .ok e₁, []⟩ ∧
      e₁.lead = e.layout.run (e.tracker.labelled text) ∧ e₁.stack = e.stack ∧ e₁.Decides d := by
  obtain ⟨e₁, htext, hrun, hlead, hstack, hstart, hlabels⟩ := he.feedAll_run file text
  have hlayout : e₁.layout = e.layout := layout_feedAll hrun
  obtain ⟨d, rest, -, hbody, hmem, hnl⟩ := Layout.exists_of_isContent hcontent
  rw [hbody] at htext hlabels
  refine ⟨d, _, e₁, htext, hbody, hrun, hlead, hstack, ?_, hstart, by rwa [hlayout],
    by rwa [hlayout]⟩
  rw [Layout.isContent, ← hlabels, Tracker.labelled_cons] at hcontent
  simp only [Bool.and_eq_true, Bool.not_eq_true'] at hcontent
  exact hcontent.1

/-- **A line with content** is let out with the marks of its level. -/
theorem AtLine.feedAll_content (he : e.AtLine) (file : Option String)
    (hline : ∀ c ∈ text.dropLast, c ≠ e.layout.newline)
    (hcontent : e.layout.isContent (e.tracker.labelled text) = true) {stack : Stack}
    (hstack : e.stack.advance? (e.layout.run (e.tracker.labelled text)) = some stack) :
    ∃ e' notices, e.feedAll file text =
        ⟨e.layout.renderLine e.depth stack.depth (e.tracker.labelled text), .ok e', notices⟩ ∧
      e'.due = [] ∧ e'.stack = stack ∧ (text.getLast? = some e.layout.newline → e'.AtLine) := by
  obtain ⟨d, tail, e₁, htext, hbody, hrun, hlead, hstack₁, hd⟩ :=
    he.exists_of_isContent file hcontent
  have he₁ : e₁.Leading := he.toLeading.feedAll hrun
  have hlayout : e₁.layout = e.layout := layout_feedAll hrun
  have hfeed := feed_of_decides hd file
  rw [hlead, hstack₁, hstack] at hfeed
  obtain ⟨e', notices, hall, hstack', hqueue, hlast⟩ := he.feedAll_of_feed htext hline hrun hfeed
    rfl (by simp [level, delivered, relevel])
  refine ⟨e', notices, ?_, due_of_queue_nil hqueue, hstack', hlast⟩
  have hdepth : e₁.depth = e.depth := congrArg Stack.depth hstack₁
  rw [hall, Layout.renderLine, hbody, hlayout, hdepth, he₁.due_eq, hlead, List.append_assoc,
    List.singleton_append, List.map_cons]

/-- A line that is rendered is let out as its rendering, but for whitespace that may be held back
at the end of the text. -/
theorem AtLine.feedAll_line (he : e.AtLine) (hn : e.layout.newline ∉ e.layout.whitespace)
    (file : Option String) (hline : ∀ c ∈ text.dropLast, c ≠ e.layout.newline)
    {out : List Token} {stack : Stack}
    (h : e.layout.render e.stack [e.tracker.labelled text] = some (out, stack)) :
    ∃ out₁ e' notices, e.feedAll file text = ⟨out₁, .ok e', notices⟩ ∧
      out₁ ++ e'.due = out ∧ e'.stack = stack ∧
      (text.getLast? = some e.layout.newline → e'.AtLine) := by
  rcases Layout.render_cons_cases h with
    ⟨hcontent, stack', out', hstack, hnil, hout⟩ | ⟨hblank, out', hnil, hout⟩
  · obtain ⟨rfl, rfl⟩ : [] = out' ∧ stack' = stack := by simpa [Layout.render] using hnil
    -- a line with content is let out as a whole
    obtain ⟨e', notices, hfeed, hdue, hstack', hlast⟩ :=
      he.feedAll_content file hline hcontent hstack
    refine ⟨_, e', notices, hfeed, ?_, hstack', hlast⟩
    rw [hdue]
    exact hout.symm
  · obtain ⟨rfl, rfl⟩ : [] = out' ∧ e.stack = stack := by simpa [Layout.render] using hnil
    obtain ⟨out₁, e', notices, hfeed, hdue, hstack', hlast⟩ := he.feedAll_blank hn file hline hblank
    refine ⟨out₁, e', notices, hfeed, ?_, hstack', hlast⟩
    -- a blank line is rendered as it is, and a part of it may still be held back
    have hchars : ((e.tracker.labelled text).map Prod.fst).map Token.content = out := by
      rw [List.map_map, ← List.append_nil (List.map _ _)]
      exact hout.symm
    rw [hdue, ← hchars, Tracker.map_fst_labelled]

/-- **Lines that are rendered** are let out as their rendering. -/
theorem AtLine.feedAll_lines {l : Layout} {lines : List (List (CodePoint × Bool))} (he : e.AtLine)
    (hl : e.layout = l) (hn : l.newline ∉ l.whitespace) (file : Option String)
    (hlines : l.Lined lines)
    (htext : e.tracker.labelled text = lines.flatten) {out : List Token} {stack : Stack}
    (h : l.render e.stack lines = some (out, stack)) :
    ∃ out₁ e' notices, e.feedAll file text = ⟨out₁, .ok e', notices⟩ ∧
      out₁ ++ e'.due = out ∧ e'.stack = stack ∧
      ((∀ x ∈ lines, (x.map Prod.fst).getLast? = some l.newline) → e'.AtLine) := by
  -- on the lines; only the last of them may lack its newline
  induction hlines generalizing e text out with
  | nil =>
    obtain rfl : text = [] := by simpa using congrArg (List.map Prod.fst) htext
    obtain ⟨rfl, rfl⟩ : [] = out ∧ e.stack = stack := by simpa [Layout.render] using h
    exact ⟨[], e, [], rfl, due_of_queue_nil he.queue_eq_nil, rfl, fun _ => he⟩
  | last line hne hline =>
    rw [List.flatten_singleton] at htext
    subst hl
    rw [← htext] at h
    have hchars : text = line.map Prod.fst := by rw [← htext, Tracker.map_fst_labelled]
    have hinit : ∀ c ∈ text.dropLast, c ≠ e.layout.newline := by
      intro c hc
      rw [hchars] at hc
      obtain ⟨y, hy, rfl⟩ := List.mem_map.1 (List.mem_of_mem_dropLast hc)
      exact hline y hy
    obtain ⟨out₁, e', notices, hfeed, hdue, hstack, hlast⟩ := he.feedAll_line hn file hinit h
    refine ⟨out₁, e', notices, hfeed, hdue, hstack, fun hends => hlast ?_⟩
    rw [hchars]
    exact hends line List.mem_cons_self
  | cons stem x rest hstem hx hrest ih =>
    -- after the newline the analysis stands at the start of a line again
    rw [List.flatten_cons] at htext
    obtain ⟨u, v, rfl, hu, hv⟩ := Tracker.exists_of_labelled_eq_append htext
    subst hl
    rw [Layout.render_cons, Option.bind_eq_some_iff] at h
    obtain ⟨⟨outᵤ, stackᵤ⟩, hrenderᵤ, h⟩ := h
    obtain ⟨⟨outᵥ, stackᵥ⟩, hrenderᵥ, hout⟩ := Option.map_eq_some_iff.1 h
    obtain ⟨rfl, rfl⟩ : outᵤ ++ outᵥ = out ∧ stackᵥ = stack := by simpa using hout
    have hchars : u = stem.map Prod.fst ++ [x.1] := by
      rw [← Tracker.map_fst_labelled e.tracker u, hu, List.map_append, List.map_singleton]
    have hinit : ∀ c ∈ u.dropLast, c ≠ e.layout.newline := by
      intro c hc
      rw [hchars, List.dropLast_concat] at hc
      obtain ⟨y, hy, rfl⟩ := List.mem_map.1 hc
      exact hstem y hy
    rw [← hu] at hrenderᵤ
    obtain ⟨out₁, e₁, told, hfeed₁, hdue₁, hstack₁, hlast₁⟩ :=
      he.feedAll_line hn file hinit hrenderᵤ
    have he₁ : e₁.AtLine := hlast₁ (by rw [hchars, List.getLast?_concat, hx])
    obtain ⟨out₂, e₂, notices, hfeed₂, hdue₂, hstack₂, hlast₂⟩ := ih he₁ (layout_feedAll hfeed₁)
      (by rw [tracker_feedAll hfeed₁, hv]) (by rw [hstack₁]; exact hrenderᵥ)
    refine ⟨out₁ ++ out₂, e₂, told ++ notices, ?_, ?_, hstack₂, fun hends => hlast₂ ?_⟩
    · rw [feedAll_append hfeed₁, hfeed₂]
    · rw [due_of_queue_nil he₁.queue_eq_nil, List.append_nil] at hdue₁
      rw [List.append_assoc, hdue₂, hdue₁]
    · exact fun y hy => hends y (List.mem_cons_of_mem _ hy)

/-- **A malformed line** fails at the character behind its run. -/
theorem AtLine.feed_misfit (he : e.AtLine) (hn : e.layout.newline ∉ e.layout.whitespace)
    (file : Option String) (hcontent : e.layout.isContent (e.tracker.labelled text) = true)
    (hstack : e.stack.advance? (e.layout.run (e.tracker.labelled text)) = none) :
    ∃ d tail e₁, text = e.layout.run (e.tracker.labelled text) ++ d :: tail ∧
      e.feedAll file (e.layout.run (e.tracker.labelled text)) = ⟨[], .ok e₁, []⟩ ∧
      e₁.feed file d = .error (.mismatch
        { line := e.line
          column := (e.layout.run (e.tracker.labelled text)).length + 1
          run := e.layout.run (e.tracker.labelled text)
          depth := e.depth
          matched := e.stack.matched (e.layout.run (e.tracker.labelled text))
          remainder := e.stack.leftover (e.layout.run (e.tracker.labelled text))
          file := file }) := by
  obtain ⟨d, tail, e₁, htext, -, hrun, hlead, hstack₁, hd⟩ := he.exists_of_isContent file hcontent
  refine ⟨d, tail, e₁, htext, hrun, ?_⟩
  -- the character behind the run decides about the line, whose run fits no level
  have hfeed := feed_of_decides hd file
  rw [hlead, hstack₁, hstack] at hfeed
  rw [hfeed]
  -- the run has no newline, so the error is in the line that it starts
  have hnl : e.layout.newline ∉ e.layout.run (e.tracker.labelled text) := fun h =>
    hn (Layout.mem_whitespace_of_mem_run h)
  have hline : e₁.line = e.line := by
    rw [line_feedAll hrun, List.count_eq_zero.2 hnl, Nat.add_zero]
  have hcolumn : e₁.column = (e.layout.run (e.tracker.labelled text)).length := by
    rw [column_feedAll hrun hnl, he.column_eq, Nat.zero_add]
  have harrive : e₁.arrive d = { e₁ with column := e₁.column + 1 } := if_neg hd.ne_newline
  rw [harrive]
  simp [mismatch, depth, hline, hcolumn, hstack₁]

end Engine

/-! ### Reading a text to the end -/

namespace Stream

variable {e : Engine} {name : Option String} {text : List CodePoint}

/-- **Reading a text whose lines are rendered** delivers their rendering, and a mark for each level
that is open at the end. -/
theorem drain_of_render_eq_some (he : e.AtLine) (hn : e.layout.newline ∉ e.layout.whitespace)
    (name : Option String) {out : List Token} {stack : Stack}
    (h : e.layout.render e.stack (e.layout.lines (e.tracker.labelled text)) = some (out, stack)) :
    ∃ next notices, (ofText name e text).drain =
      (out ++ List.replicate stack.depth ⟨.dedent, e.layout.dedentMark⟩,
        ⟨.ok (), next, notices⟩) := by
  obtain ⟨out₁, e', notices, hfeed, hdue, hstack, -⟩ := he.feedAll_lines rfl hn name
    (e.layout.lined_lines _) (e.layout.flatten_lines _).symm h
  obtain ⟨b, hdrain⟩ := drain_of_feedAll_ok he.toLeading he.queue_eq_nil hfeed
  refine ⟨(ofText name e'.finish []).ended b, notices ++ flushNotices e'.depth, ?_⟩
  rw [hdrain, ← List.append_assoc, hdue, Engine.dedentToken, Engine.layout_feedAll hfeed,
    Engine.depth, hstack]

/-- **Reading a text with a malformed line** delivers the rendering of the lines before the first
such line, and says where that line is and what is wrong with it. -/
theorem drain_of_render_eq_none (he : e.AtLine) (hn : e.layout.newline ∉ e.layout.whitespace)
    (name : Option String)
    (h : e.layout.render e.stack (e.layout.lines (e.tracker.labelled text)) = none) :
    ∃ before line after out stack next notices,
      e.layout.lines (e.tracker.labelled text) = before ++ line :: after ∧
      e.layout.render e.stack before = some (out, stack) ∧ e.layout.isContent line = true ∧
      stack.advance? (e.layout.run line) = none ∧
      (ofText name e text).drain = (out, ⟨.error (.mismatch
        { line := e.line + (Layout.unlines before).count e.layout.newline
          column := (e.layout.run line).length + 1
          run := e.layout.run line
          depth := stack.depth
          matched := stack.matched (e.layout.run line)
          remainder := stack.leftover (e.layout.run line)
          file := name }), next, notices⟩) := by
  obtain ⟨before, line, after, out, stack, hlines, hbefore, hcontent, hnone⟩ :=
    Layout.exists_of_render_eq_none h
  have hlined := e.layout.lined_lines (e.tracker.labelled text)
  have hflat := e.layout.flatten_lines (e.tracker.labelled text)
  rw [hlines] at hlined hflat
  rw [List.flatten_append, List.flatten_cons] at hflat
  -- the text falls into that of the lines before, that of the malformed line, and the rest
  obtain ⟨u, v, rfl, hu, hv⟩ := Tracker.exists_of_labelled_eq_append hflat.symm
  obtain ⟨w, rest, rfl, hw, -⟩ := Tracker.exists_of_labelled_eq_append hv
  obtain ⟨hlined₁, hends⟩ := hlined.of_append
  -- the lines before are let out, and the malformed line is met at its start
  obtain ⟨out₁, e₁, notices, hfeed, hdue, hstack, hlast⟩ :=
    he.feedAll_lines rfl hn name hlined₁ hu hbefore
  have he₁ : e₁.AtLine := hlast hends
  have hlayout : e₁.layout = e.layout := Engine.layout_feedAll hfeed
  have hlabel : e₁.tracker.labelled w = line := by rw [Engine.tracker_feedAll hfeed, hw]
  rw [Engine.due_of_queue_nil he₁.queue_eq_nil, List.append_nil] at hdue
  have hcontent₁ : e₁.layout.isContent (e₁.tracker.labelled w) = true := by rwa [hlabel, hlayout]
  have hnone₁ : e₁.stack.advance? (e₁.layout.run (e₁.tracker.labelled w)) = none := by
    rwa [hlabel, hlayout, hstack]
  obtain ⟨d, tail, e₂, htext, hrun, hmisfit⟩ :=
    he₁.feed_misfit (by rwa [hlayout]) name hcontent₁ hnone₁
  rw [hlabel, hlayout] at htext hrun hmisfit
  have hall : e.feedAll name (u ++ e.layout.run line) = ⟨out, .ok e₂, notices⟩ := by
    rw [Engine.feedAll_append hfeed, hrun, hdue, List.append_nil, List.append_nil]
  -- what comes behind the character that fails is not asked for
  have hdrain := drain_of_feed_error he.toLeading he.queue_eq_nil hall hmisfit (tail ++ rest)
  have hu' : Layout.unlines before = u := by rw [Layout.unlines, ← hu, Tracker.map_fst_labelled]
  refine ⟨before, line, after, out, stack, ofText name (e₂.arrive d) (tail ++ rest), notices,
    hlines, hbefore, hcontent, hnone, ?_⟩
  have hsplit : u ++ (w ++ rest) = u ++ e.layout.run line ++ d :: (tail ++ rest) := by
    conv => lhs; rw [htext]
    simp
  rw [hsplit, hdrain, hu', Engine.line_feedAll hfeed, Engine.depth, hstack]

/-! ### Reading a text from its start -/

/-- A text whose lines are rendered, read from its start. -/
theorem drain_fresh_of_render_eq_some {l : Layout} {rules : List Rule}
    (hn : l.newline ∉ l.whitespace) (name : Option String) {out : List Token} {stack : Stack}
    (h : l.render {} (l.linesOf rules text) = some (out, stack)) :
    ∃ next notices, (ofText name (.fresh l rules) text).drain =
      (out ++ List.replicate stack.depth ⟨.dedent, l.dedentMark⟩, ⟨.ok (), next, notices⟩) :=
  drain_of_render_eq_some (Engine.atLine_fresh l rules) hn name h

/-- A text with a malformed line, read from its start. -/
theorem drain_fresh_of_render_eq_none {l : Layout} {rules : List Rule}
    (hn : l.newline ∉ l.whitespace) (name : Option String)
    (h : l.render {} (l.linesOf rules text) = none) :
    ∃ before line after out stack next notices,
      l.linesOf rules text = before ++ line :: after ∧
      l.render {} before = some (out, stack) ∧ l.isContent line = true ∧
      stack.advance? (l.run line) = none ∧
      (ofText name (.fresh l rules) text).drain = (out, ⟨.error (.mismatch
        { line := 1 + (Layout.unlines before).count l.newline
          column := (l.run line).length + 1
          run := l.run line
          depth := stack.depth
          matched := stack.matched (l.run line)
          remainder := stack.leftover (l.run line)
          file := name }), next, notices⟩) :=
  drain_of_render_eq_none (Engine.atLine_fresh l rules) hn name h

/-- **The text read is the rendering of the lines.**  Reading succeeds if and only if no line is
malformed where its run meets the stack of the lines before it. -/
theorem read_eq_renderAll (l : Layout) (rules : List Rule) (name : Option String)
    (text : List CodePoint) (hn : l.newline ∉ l.whitespace) :
    ((∃ out, ((ofText name (.fresh l rules) text).read (-1)).outcome = .ok out) ↔
        ((l.contentRuns (l.linesOf rules text)).foldlM Stack.advance? {}).isSome) ∧
      ((ofText name (.fresh l rules) text).read (-1)).outcome.toOption =
        l.renderAll (l.linesOf rules text) := by
  rw [read_eq_drain, Reply.outcome_map, Layout.foldlM_contentRuns, Layout.renderAll]
  cases hrender : l.render {} (l.linesOf rules text) with
  | none =>
    obtain ⟨_, _, _, out, _, next, notices, -, -, -, -, hdrain⟩ :=
      drain_fresh_of_render_eq_none hn name hrender
    rw [hdrain]
    simp [Except.map, Except.toOption]
  | some r =>
    obtain ⟨out, stack⟩ := r
    obtain ⟨next, notices, hdrain⟩ := drain_fresh_of_render_eq_some hn name hrender
    rw [hdrain]
    simp [Except.map, Except.toOption]

/-- A block that is opened with a tab, a region over two lines, a blank line, a comment at the
start of a line and one level more, which the end of the text closes. -/
theorem read_nested_text :
    ((Layout.newline {}) ∉ (Layout.whitespace {})) ∧
      ((ofText none (.fresh {} [⟨'(', ')'⟩, ⟨'#', '\n'⟩])
        "a\n\tb (\n c)\n \n   # d\n\t  e # f\n".codePoints).read (-1)).outcome.toOption =
        some "a\n>b (\n c)\n \n   # d\n>e # f\n<<".codePoints :=
  ⟨by decide, (read_eq_renderAll _ _ _ _ (by decide)).2.trans (by decide +kernel)⟩

end Stream

end Offside
