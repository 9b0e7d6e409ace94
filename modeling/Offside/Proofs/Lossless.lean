import Offside.Proofs.Feed
import Offside.Proofs.Lines

/-!
# Nothing is lost

If the whitespace at the start of a line is kept, the text can be read off what is delivered: it is
the tokens that are no marks.  At all times the text that was read is what was let out and what is
held back, in this order.  This does not depend on where lines end, so it holds even if the newline
is whitespace.

If reading fails, what was delivered is the text before the whitespace of the malformed line.

## Main definitions

* `Token.contents` — the characters that are no marks.
* `Layout.LeadingRun` — the whitespace that a line starts with.
* `Engine.Keeps` — what was let out and what is held back.

## Main results

* `Engine.Keeps.feed`, `Engine.Keeps.feedAll` — nothing is lost, added or moved.
* `Stream.contents_drain` — what is delivered that is no mark is the text.
* `Stream.unmark_read_eq` — **deleting the marks gives the text back.**
-/

namespace Offside

/-! ### What is no mark -/

namespace Token

/-- The characters that are no marks. -/
def contents (tokens : List Token) : List CodePoint := text (tokens.filter (·.role = .content))

@[simp] theorem contents_nil : contents [] = [] := rfl

@[simp] theorem contents_append (first second : List Token) :
    contents (first ++ second) = contents first ++ contents second := by
  simp [contents, text]

@[simp] theorem contents_map_content (text : List CodePoint) :
    contents (text.map content) = text := by
  simp [contents, Token.text, List.filter_map, Function.comp_def]

@[simp] theorem contents_singleton (c : CodePoint) : contents [content c] = [c] := rfl

/-- Tokens that are all marks have no content. -/
theorem contents_of_marks {tokens : List Token} (h : ∀ t ∈ tokens, t.role ≠ .content) :
    contents tokens = [] := by
  have hnil : tokens.filter (·.role = .content) = [] := by
    rw [List.filter_eq_nil_iff]
    intro t ht
    simpa using h t ht
  rw [contents, hnil]
  rfl

end Token

theorem Layout.role_of_mem_marks {l : Layout} {before after : Nat} {t : Token}
    (h : t ∈ l.marks before after) : t.role ≠ .content := by
  rw [marks] at h
  split at h
  · simp [List.mem_singleton.1 h]
  · simp [List.eq_of_mem_replicate h]

theorem Layout.contents_marks (l : Layout) (before after : Nat) :
    Token.contents (l.marks before after) = [] :=
  Token.contents_of_marks fun _ => role_of_mem_marks

/-- A token is a character of the text, or one of the mark characters. -/
def Layout.Marked (l : Layout) (t : Token) : Prop :=
  t.role = .content ∨ t.char = l.indentMark ∨ t.char = l.dedentMark

theorem Layout.marked_of_mem_marks {l : Layout} {before after : Nat} {t : Token}
    (h : t ∈ l.marks before after) : l.Marked t := by
  rw [marks] at h
  split at h
  · rw [List.mem_singleton.1 h]
    exact Or.inr (Or.inl rfl)
  · rw [List.eq_of_mem_replicate h]
    exact Or.inr (Or.inr rfl)

/-- A text without the mark characters. -/
def Layout.unmark (l : Layout) (text : List CodePoint) : List CodePoint :=
  text.filter fun c => c ≠ l.indentMark ∧ c ≠ l.dedentMark

/-- If the mark characters occur in marks only, deleting them leaves the content. -/
theorem Layout.unmark_text {l : Layout} {tokens : List Token} (h : ∀ t ∈ tokens, l.Marked t)
    (hindent : l.indentMark ∉ Token.contents tokens)
    (hdedent : l.dedentMark ∉ Token.contents tokens) :
    l.unmark (Token.text tokens) = Token.contents tokens := by
  rw [unmark, Token.contents, Token.text, Token.text, List.filter_map]
  congr 1
  refine List.filter_congr fun t ht => ?_
  have hmem (hrole : t.role = .content) : t.char ∈ Token.contents tokens :=
    List.mem_map.2 ⟨t, List.mem_filter.2 ⟨ht, decide_eq_true hrole⟩, rfl⟩
  simp only [Function.comp_apply, decide_eq_decide]
  constructor
  · rintro ⟨ha, hb⟩
    rcases h t ht with hrole | hchar | hchar
    · exact hrole
    · exact absurd hchar ha
    · exact absurd hchar hb
  · intro hrole
    refine ⟨fun ha => hindent ?_, fun hb => hdedent ?_⟩
    · rw [← ha]
      exact hmem hrole
    · rw [← hb]
      exact hmem hrole

/-! ### The whitespace of a line -/

/-- The characters `run` are all the whitespace that a line starts with, after the text `before`
and up to the character `c`. -/
structure Layout.LeadingRun (l : Layout) (t : Tracker) (before run : List CodePoint)
    (c : CodePoint) : Prop where
  atLine : before = [] ∨ before.getLast? = some l.newline
  leads : ∀ x ∈ (t.after before).labelled run, l.leads x = true
  ends : l.leads (c, (t.after (before ++ run)).escapes c) = false

namespace Engine

/-! ### What was let out and what is held back -/

/-- When `before` has been let out, what is held back is whitespace at the start of a line. -/
structure Keeps (t : Tracker) (before : List CodePoint) (e : Engine) : Prop extends e.Leading where
  keep : e.layout.keepWhitespace = true
  tracker_eq : e.tracker = t.after (before ++ e.lead)
  atLine : e.lineStart = true → before = [] ∨ before.getLast? = some e.layout.newline
  leads : ∀ x ∈ (t.after before).labelled e.lead, e.layout.leads x = true

theorem keeps_fresh {l : Layout} (hkeep : l.keepWhitespace = true) (rules : List Rule) :
    (fresh l rules).Keeps { rules := rules } [] where
  __ := leading_fresh l rules
  keep := hkeep
  tracker_eq := rfl
  atLine _ := Or.inl rfl
  leads := by simp [lead_of_queue_nil (e := fresh l rules) rfl]

variable {e e' : Engine} {t : Tracker} {file : Option String} {c : CodePoint}
  {before text : List CodePoint} {tokens : List Token} {notices : List Notice}

/-- **What is let out is what was held back and the character that arrived**, between marks. -/
theorem contents_feed (he : e.Leading) (hkeep : e.layout.keepWhitespace = true)
    (h : e.feed file c = .ok (tokens, e', notices)) :
    Token.contents tokens ++ e'.lead = e.lead ++ [c] := by
  have hfeeds := feeds_feed e file c
  rw [h] at hfeeds
  cases hfeeds with
  | hold =>
    rw [lead_enqueue]
    rfl
  | pass =>
    rw [he.due_eq, lead_of_queue_nil (e := e.pass c) rfl]
    simp
  | level hdec stack hstack =>
    rw [he.due_eq, lead_of_queue_nil (e := e.level c stack) rfl, hkeep, if_pos rfl]
    simp [Layout.contents_marks]

/-- Unless the character is held back, it is let out last, and a newline starts a line. -/
theorem lineStart_feed (h : e.feed file c = .ok (tokens, e', notices)) (hc : ¬ e.holds c = true) :
    e'.queue = [] ∧ e'.lineStart = decide (c = e.layout.newline) := by
  have hfeeds := feeds_feed e file c
  rw [h] at hfeeds
  cases hfeeds with
  | hold hesc hline hmem => exact absurd (holds_iff.2 ⟨hesc, hline, hmem⟩) hc
  | pass => simp [pass, delivered, observe]
  | level => simp [level, delivered, relevel]

/-- **Nothing is lost by a character.** -/
theorem Keeps.feed (he : e.Keeps t before) (h : e.feed file c = .ok (tokens, e', notices)) :
    e'.Keeps t (before ++ Token.contents tokens) := by
  have hcontents := contents_feed he.toLeading he.keep h
  have htracker : e'.tracker = t.after (before ++ Token.contents tokens ++ e'.lead) := by
    rw [List.append_assoc, hcontents, ← List.append_assoc, Tracker.after_append, ← he.tracker_eq,
      tracker_feed h]
    rfl
  have hkeep : e'.layout.keepWhitespace = true := by
    rw [layout_feed h]
    exact he.keep
  have hleading := he.toLeading.feed h
  by_cases hc : e.holds c = true
  · -- the character is one more of the whitespace
    obtain ⟨hesc, -, hmem⟩ := holds_iff.1 hc
    rw [feed_of_holds hc] at h
    obtain ⟨rfl, rfl, -⟩ : _ ∧ _ ∧ _ := by simpa using h
    refine ⟨hleading, hkeep, htracker, by simpa [enqueue] using he.atLine, ?_⟩
    intro x hx
    rw [Token.contents_nil, List.append_nil, lead_enqueue, Tracker.labelled_append,
      ← Tracker.after_append, ← he.tracker_eq] at hx
    rw [layout_feed (feed_of_holds hc file)]
    rcases List.mem_append.1 hx with hx | hx
    · exact he.leads x hx
    · have hesc' : e.tracker.escapes c = false := hesc
      rw [Tracker.labelled_cons, Tracker.labelled_nil, List.mem_singleton] at hx
      rw [hx, Layout.leads, hesc', Bool.not_false, Bool.true_and]
      exact decide_eq_true hmem
  · -- the character is let out last, and nothing is held back behind it
    obtain ⟨hqueue, hline⟩ := lineStart_feed h hc
    rw [lead_of_queue_nil hqueue, List.append_nil] at hcontents
    refine ⟨hleading, hkeep, htracker, ?_, ?_⟩
    · intro hstart
      rw [hline, decide_eq_true_eq] at hstart
      rw [hcontents, ← List.append_assoc, List.getLast?_concat, layout_feed h, hstart]
      exact Or.inr rfl
    · intro x hx
      rw [lead_of_queue_nil hqueue, Tracker.labelled_nil] at hx
      exact absurd hx List.not_mem_nil

theorem marked_feed (he : e.Leading) (h : e.feed file c = .ok (tokens, e', notices)) :
    ∀ x ∈ tokens, e.layout.Marked x := by
  have hfeeds := feeds_feed e file c
  have hdue : ∀ x ∈ e.due ++ [Token.content c], e.layout.Marked x := by
    intro x hx
    refine Or.inl ?_
    rcases List.mem_append.1 hx with hx | hx
    · rw [he.due_eq] at hx
      obtain ⟨d, -, rfl⟩ := List.mem_map.1 hx
      rfl
    · rw [List.mem_singleton.1 hx, Token.role_content]
  rw [h] at hfeeds
  intro x hx
  cases hfeeds with
  | hold => simp at hx
  | pass => exact hdue x hx
  | level hdec stack hstack =>
    rw [List.append_assoc] at hx
    rcases List.mem_append.1 hx with hx | hx
    · exact Layout.marked_of_mem_marks hx
    · refine hdue x ?_
      rcases List.mem_append.1 hx with hx | hx
      · split at hx
        · exact List.mem_append_left _ hx
        · simp at hx
      · exact List.mem_append_right _ hx

theorem marked_feedAll (he : e.Leading) (h : e.feedAll file text = ⟨tokens, .ok e', notices⟩) :
    ∀ x ∈ tokens, e.layout.Marked x := by
  revert he
  refine feedAll_induction (P := fun e _ tokens _ _ => e.Leading →
    ∀ x ∈ tokens, e.layout.Marked x) ?_ ?_ h
  · intro e _ x hx
    exact absurd hx List.not_mem_nil
  · intro e e₁ e' c rest out tokens told notices hc ih he x hx
    rcases List.mem_append.1 hx with hx | hx
    · exact marked_feed he hc x hx
    · rw [← layout_feed hc]
      exact ih (he.feed hc) x hx

/-- **Nothing is lost by a text.** -/
theorem Keeps.feedAll (he : e.Keeps t before)
    (h : e.feedAll file text = ⟨tokens, .ok e', notices⟩) :
    Token.contents tokens ++ e'.lead = e.lead ++ text ∧
      e'.Keeps t (before ++ Token.contents tokens) := by
  revert before
  refine feedAll_induction (P := fun e text tokens e' _ => ∀ {before}, e.Keeps t before →
    Token.contents tokens ++ e'.lead = e.lead ++ text ∧
      e'.Keeps t (before ++ Token.contents tokens)) ?_ ?_ h
  · intro e before he
    rw [Token.contents_nil, List.append_nil, List.append_nil]
    exact ⟨rfl, he⟩
  · intro e e₁ e' c rest out tokens told notices hc ih before he
    obtain ⟨hcontents, hkeeps⟩ := ih (he.feed hc)
    rw [List.append_assoc, ← Token.contents_append] at hkeeps
    refine ⟨?_, hkeeps⟩
    rw [Token.contents_append, List.append_assoc, hcontents, ← List.append_assoc,
      contents_feed he.toLeading he.keep hc, List.append_assoc, List.singleton_append]

end Engine

namespace Stream

open Engine

variable {name : Option String} {text : List CodePoint}

/-- **Reading a text loses nothing.**  The tokens that are no marks are the text, or up to a
malformed line what stands before its whitespace. -/
theorem contents_drain {l : Layout} (hkeep : l.keepWhitespace = true) (rules : List Rule)
    (name : Option String) (text : List CodePoint) :
    ((ofText name (.fresh l rules) text).drain.2.outcome = .ok () ∧
        Token.contents (ofText name (.fresh l rules) text).drain.1 = text) ∨
      ∃ m before c after,
        (ofText name (.fresh l rules) text).drain.2.outcome = .error (.mismatch m) ∧
        Token.contents (ofText name (.fresh l rules) text).drain.1 = before ∧
        text = before ++ m.run ++ c :: after ∧
        (ofText name (.fresh l rules) text).drain.2.next.source.rest = after ∧
        l.LeadingRun { rules := rules } before m.run c ∧
        (({ rules := rules } : Tracker).after (before ++ m.run)).escapes c = false ∧
        c ≠ l.newline := by
  have hkeeps := keeps_fresh hkeep rules
  have hlead : (fresh l rules).lead = [] := rfl
  cases hfeed : (fresh l rules).feedAll name text with
  | mk tokens outcome notices =>
    cases outcome with
    | ok e =>
      -- the text is let out, what is held back at its end follows, and then only marks
      obtain ⟨b, hdrain⟩ := drain_of_feedAll_ok hkeeps.toLeading rfl hfeed
      obtain ⟨hcontents, hkeeps'⟩ := hkeeps.feedAll hfeed
      refine Or.inl ⟨by rw [hdrain], ?_⟩
      rw [hlead, List.nil_append] at hcontents
      have hmarks : Token.contents (List.replicate e.depth e.dedentToken) = [] :=
        Token.contents_of_marks (by simp [dedentToken])
      rw [hdrain, Token.contents_append, Token.contents_append, hmarks, hkeeps'.due_eq,
        Token.contents_map_content, List.append_nil, hcontents]
    | error x =>
      -- the whitespace of the malformed line is held back when its error comes
      obtain ⟨fed, c, after, e, rfl, hfed, hc⟩ := exists_of_feedAll_eq_error hfeed
      obtain ⟨hcontents, hkeeps'⟩ := hkeeps.feedAll hfed
      have hdrain := drain_of_feed_error hkeeps.toLeading rfl hfed hc after
      rw [hlead, List.nil_append] at hcontents
      have hlayout : e.layout = l := layout_feedAll hfed
      have hfeeds := feeds_feed e name c
      rw [hc] at hfeeds
      cases hfeeds with
      | misfit hdec hnone =>
        have hescapes := hdec.escapes_eq
        rw [escapes, hkeeps'.tracker_eq, List.nil_append] at hescapes
        refine Or.inr ⟨_, Token.contents tokens, c, after, by rw [hdrain], by rw [hdrain], ?_,
          by rw [hdrain]; rfl, ⟨?_, ?_, ?_⟩, hescapes, hlayout ▸ hdec.ne_newline⟩
        · rw [← hcontents]
          rfl
        · rw [← hlayout]
          exact hkeeps'.atLine hdec.lineStart_eq
        · rw [← hlayout]
          exact hkeeps'.leads
        · have hc' : c ∉ l.whitespace := hlayout ▸ hdec.notMem
          simp [Layout.leads, hc']

/-- What is delivered that is no content is one of the mark characters. -/
theorem marked_drain (l : Layout) (rules : List Rule) (name : Option String)
    (text : List CodePoint) :
    ∀ x ∈ (ofText name (.fresh l rules) text).drain.1, l.Marked x := by
  have he := leading_fresh l rules
  cases hfeed : (fresh l rules).feedAll name text with
  | mk tokens outcome notices =>
    cases outcome with
    | ok e =>
      obtain ⟨b, hdrain⟩ := drain_of_feedAll_ok he rfl hfeed
      rw [hdrain]
      intro x hx
      rcases List.mem_append.1 hx with hx | hx
      · exact marked_feedAll he hfeed x hx
      · rcases List.mem_append.1 hx with hx | hx
        · rw [(he.feedAll hfeed).due_eq] at hx
          obtain ⟨d, -, rfl⟩ := List.mem_map.1 hx
          exact Or.inl rfl
        · rw [List.eq_of_mem_replicate hx, dedentToken, layout_feedAll hfeed]
          exact Or.inr (Or.inr rfl)
    | error x =>
      obtain ⟨fed, c, after, e, rfl, hfed, hc⟩ := exists_of_feedAll_eq_error hfeed
      rw [drain_of_feed_error he rfl hfed hc after]
      exact marked_feedAll he hfed

/-- **Deleting the marks gives the text back**, if the whitespace is kept and the mark characters do
not occur in the text.  If reading fails, it gives the text before the whitespace of the malformed
line. -/
theorem unmark_read_eq (l : Layout) (rules : List Rule) (name : Option String)
    (text : List CodePoint) (hkeep : l.keepWhitespace = true) (hindent : l.indentMark ∉ text)
    (hdedent : l.dedentMark ∉ text) :
    (∃ out, ((ofText name (.fresh l rules) text).read (-1)).outcome = .ok out ∧
        l.unmark out = text) ∨
      ∃ m before c after,
        ((ofText name (.fresh l rules) text).read (-1)).outcome = .error (.mismatch m) ∧
        l.unmark (Token.text (ofText name (.fresh l rules) text).drain.1) = before ∧
        text = before ++ m.run ++ c :: after ∧
        ((ofText name (.fresh l rules) text).read (-1)).next.source.rest = after ∧
        l.LeadingRun { rules := rules } before m.run c ∧
        (({ rules := rules } : Tracker).after (before ++ m.run)).escapes c = false ∧
        c ≠ l.newline := by
  have hmarked := marked_drain l rules name text
  rw [read_eq_drain, Reply.outcome_map, Reply.next_map]
  rcases contents_drain hkeep rules name text with
    ⟨hok, hcontents⟩ | ⟨m, before, c, after, herror, hcontents, htext, hrest⟩
  · refine Or.inl ⟨_, by rw [hok]; rfl, ?_⟩
    rw [Layout.unmark_text hmarked (by rwa [hcontents]) (by rwa [hcontents]), hcontents]
  · have hbefore : ∀ d ∈ before, d ∈ text := fun d hd => by
      rw [htext, List.append_assoc]
      exact List.mem_append_left _ hd
    refine Or.inr ⟨m, before, c, after, by rw [herror]; rfl, ?_, htext, hrest⟩
    rw [Layout.unmark_text hmarked, hcontents]
    · rw [hcontents]
      exact fun h => hindent (hbefore _ h)
    · rw [hcontents]
      exact fun h => hdedent (hbefore _ h)

/-- Whitespace is kept, and newlines are whitespace. -/
def runOnLayout : Layout := { keepWhitespace := true, whitespace := [' ', '\n'] }

/-- A block behind a blank line, a comment, and a line that fits no block. -/
def runOnText : List CodePoint := "a\n\n  b\n # c\n d\n".codePoints

theorem unmark_read_runOnText :
    (runOnLayout.keepWhitespace = true ∧ runOnLayout.indentMark ∉ runOnText ∧
      runOnLayout.dedentMark ∉ runOnText) ∧
      runOnLayout.unmark
        (Token.text (ofText none (.fresh runOnLayout [⟨'#', '\n'⟩]) runOnText).drain.1) <+:
          runOnText := by
  refine ⟨⟨rfl, by decide, by decide⟩, ?_⟩
  rcases unmark_read_eq runOnLayout [⟨'#', '\n'⟩] none runOnText rfl (by decide) (by decide) with
    ⟨out, hout, htext⟩ | ⟨m, before, c, after, -, hbefore, htext, -⟩
  · rw [read_eq_drain, Reply.outcome_map] at hout
    cases hdrain : (ofText none (.fresh runOnLayout [⟨'#', '\n'⟩]) runOnText).drain.2.outcome with
    | error x => simp [hdrain, Except.map] at hout
    | ok u =>
      rw [hdrain] at hout
      obtain rfl := Except.ok.inj hout
      exact ⟨[], by rw [List.append_nil]; exact htext⟩
  · rw [hbefore, htext, List.append_assoc]
    exact List.prefix_append _ _

end Stream

end Offside
