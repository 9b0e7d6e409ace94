import Offside.Proofs.Recording
import Offside.Proofs.Regions

/-!
# How the escape rules cut a text

Reading the characters of a text one by one, the escape rules find regions in it.  The regions can
be told without reading: the first character that opens one does so for the first rule with this
opening, and the region goes on to the next later character that closes it, or to the end of the
text.  Behind it the search starts anew, as if the text before had not been there.

So regions do not overlap and do not nest, and whether the opening of a rule is the closing of
another, or of itself, plays no part.  Of several rules with the same opening all but the first
may as well be missing.

## Main definitions

* `Rule.First` — the rule that a character opens.
* `Cut` — a text in pieces, inside of regions and outside.

## Main results

* `Cut.labelled_eq`, `exists_cut` — each text can be cut, and what is escaped is what is inside.
* `Tracker.label_add` — a rule whose opening is taken already changes nothing.
* `Stream.shown_once` — **each character is shown to the escape rules once, and they cut the text.**
-/

namespace Offside

/-! ### The rule of an opening character -/

/-- The rule `r` is the first that `c` opens. -/
def Rule.First (rules : List Rule) (c : CodePoint) (r : Rule) : Prop :=
  ∃ earlier later, rules = earlier ++ r :: later ∧ r.opening = c ∧ ∀ q ∈ earlier, q.opening ≠ c

namespace Tracker

variable {t : Tracker} {c : CodePoint} {r : Rule} {text : List CodePoint}

theorem opened_eq_none_iff : t.opened c = none ↔ ∀ r ∈ t.rules, r.opening ≠ c := by
  simp [opened]

theorem opened_eq_some_iff : t.opened c = some r ↔ Rule.First t.rules c r := by
  rw [opened, List.find?_eq_some_iff_append]
  constructor
  · rintro ⟨hr, earlier, later, hrules, hearlier⟩
    exact ⟨earlier, later, hrules, by simpa using hr, fun q hq => by simpa using hearlier q hq⟩
  · rintro ⟨earlier, later, hrules, hr, hearlier⟩
    exact ⟨by simpa using hr, earlier, later, hrules, fun q hq => by simpa using hearlier q hq⟩

/-- Text that opens nothing is outside of regions. -/
theorem labelled_outside (hactive : t.active = none)
    (h : ∀ c ∈ text, ∀ r ∈ t.rules, r.opening ≠ c) :
    t.labelled text = text.map (·, false) ∧ t.after text = t := by
  induction text with
  | nil => exact ⟨rfl, rfl⟩
  | cons c text ih =>
    obtain ⟨hc, hrest⟩ := List.forall_mem_cons.1 h
    have hopened : t.opened c = none := opened_eq_none_iff.2 hc
    have hobserve : t.observe c = t := by
      rw [observe, hactive]
      simp only [hopened]
      rw [← hactive]
    have hescapes : t.escapes c = false := by simp [escapes, hactive, hopened]
    obtain ⟨hlabelled, hafter⟩ := ih hrest
    rw [labelled_cons, after_cons, hobserve, hescapes, hlabelled, hafter]
    exact ⟨rfl, rfl⟩

/-- Text that does not close the region is inside. -/
theorem labelled_inside (hactive : t.active = some r) (h : r.closing ∉ text) :
    t.labelled text = text.map (·, true) ∧ t.after text = t := by
  induction text with
  | nil => exact ⟨rfl, rfl⟩
  | cons c text ih =>
    rw [List.mem_cons, not_or] at h
    have hobserve : t.observe c = t := by
      rw [observe, hactive]
      simp only [if_neg (Ne.symm h.1)]
    have hescapes : t.escapes c = true := by simp [escapes, hactive]
    obtain ⟨hlabelled, hafter⟩ := ih h.2
    rw [labelled_cons, after_cons, hobserve, hescapes, hlabelled, hafter]
    exact ⟨rfl, rfl⟩

end Tracker

/-! ### Pieces -/

/-- A text in pieces, each with whether it is inside of a region: the first region opens with the
first character that can open one, for the first rule that it opens, and closes with the next later
character that closes it, and what follows is cut in the same way. -/
inductive Cut (rules : List Rule) : List CodePoint → List (List CodePoint × Bool) → Prop where
  /-- No region opens. -/
  | outside {text : List CodePoint} (h : ∀ c ∈ text, ∀ r ∈ rules, r.opening ≠ c) :
      Cut rules text [(text, false)]
  /-- A region opens and closes. -/
  | closed {before body rest : List CodePoint} {c : CodePoint} {r : Rule}
      {pieces : List (List CodePoint × Bool)}
      (hbefore : ∀ d ∈ before, ∀ q ∈ rules, q.opening ≠ d) (hr : Rule.First rules c r)
      (hbody : r.closing ∉ body) (hrest : Cut rules rest pieces) :
      Cut rules (before ++ c :: (body ++ r.closing :: rest))
        ((before, false) :: (c :: body ++ [r.closing], true) :: pieces)
  /-- A region opens and goes on to the end. -/
  | unclosed {before body : List CodePoint} {c : CodePoint} {r : Rule}
      (hbefore : ∀ d ∈ before, ∀ q ∈ rules, q.opening ≠ d) (hr : Rule.First rules c r)
      (hbody : r.closing ∉ body) :
      Cut rules (before ++ c :: body) [(before, false), (c :: body, true)]

/-- The labels of the pieces. -/
def labelsOf (pieces : List (List CodePoint × Bool)) : List (CodePoint × Bool) :=
  pieces.flatMap fun piece => piece.1.map (·, piece.2)

/-- **What is escaped is what is inside of regions.** -/
theorem Cut.labelled_eq {rules : List Rule} {text : List CodePoint}
    {pieces : List (List CodePoint × Bool)} (h : Cut rules text pieces) :
    ({ rules := rules } : Tracker).labelled text = labelsOf pieces := by
  -- the tracker before a region, behind its opening character, and behind its closing one
  let t : Tracker := { rules := rules }
  have hopen {c : CodePoint} {r : Rule} (hr : Rule.First rules c r) :
      t.escapes c = true ∧ (t.observe c).active = some r := by
    have hopened : t.opened c = some r := Tracker.opened_eq_some_iff.2 hr
    exact ⟨by simp [Tracker.escapes, hopened], hopened⟩
  induction h with
  | outside h =>
    rw [(Tracker.labelled_outside rfl h).1]
    simp [labelsOf]
  | @closed before body rest c r pieces hbefore hr hbody hrest ih =>
    obtain ⟨hescapes, hactive⟩ := hopen hr
    obtain ⟨hlabelled, hafter⟩ := Tracker.labelled_outside (t := t) rfl hbefore
    obtain ⟨hinside, hsame⟩ := Tracker.labelled_inside hactive hbody
    -- the closing character belongs to the region and leaves the tracker as it was before it
    have hclosing : (t.observe c).escapes r.closing = true := by
      simp [Tracker.escapes, hactive]
    have hclosed : (t.observe c).observe r.closing = t := by
      rw [Tracker.observe, hactive]
      simp [t, Tracker.observe]
    show t.labelled _ = _
    rw [Tracker.labelled_append, hlabelled, hafter, Tracker.labelled_cons, hescapes,
      Tracker.labelled_append, hinside, hsame, Tracker.labelled_cons, hclosing, hclosed, ih]
    simp [labelsOf]
  | @unclosed before body c r hbefore hr hbody =>
    obtain ⟨hescapes, hactive⟩ := hopen hr
    obtain ⟨hlabelled, hafter⟩ := Tracker.labelled_outside (t := t) rfl hbefore
    obtain ⟨hinside, -⟩ := Tracker.labelled_inside hactive hbody
    show t.labelled _ = _
    rw [Tracker.labelled_append, hlabelled, hafter, Tracker.labelled_cons, hescapes, hinside]
    simp [labelsOf]

/-- A text opens nothing, or there is a first character that does. -/
theorem exists_first_opening (rules : List Rule) (text : List CodePoint) :
    (∀ c ∈ text, ∀ r ∈ rules, r.opening ≠ c) ∨
      ∃ before c rest r, text = before ++ c :: rest ∧
        (∀ d ∈ before, ∀ q ∈ rules, q.opening ≠ d) ∧ Rule.First rules c r := by
  let t : Tracker := { rules := rules }
  induction text with
  | nil => exact Or.inl (by simp)
  | cons c text ih =>
    cases hopened : t.opened c with
    | some r => exact Or.inr ⟨[], c, text, r, rfl, by simp, Tracker.opened_eq_some_iff.1 hopened⟩
    | none =>
      have hc : ∀ r ∈ rules, r.opening ≠ c := Tracker.opened_eq_none_iff.1 hopened
      rcases ih with hnone | ⟨before, d, rest, r, rfl, hbefore, hr⟩
      · exact Or.inl (List.forall_mem_cons.2 ⟨hc, hnone⟩)
      · exact Or.inr ⟨c :: before, d, rest, r, rfl, List.forall_mem_cons.2 ⟨hc, hbefore⟩, hr⟩

/-- **Each text can be cut.** -/
theorem exists_cut (rules : List Rule) (text : List CodePoint) :
    ∃ pieces, Cut rules text pieces := by
  induction hn : text.length using Nat.strong_induction_on generalizing text with
  | _ n ih =>
    rcases exists_first_opening rules text with hnone | ⟨before, c, rest, r, rfl, hbefore, hr⟩
    · exact ⟨_, .outside hnone⟩
    · by_cases hclosing : r.closing ∈ rest
      · obtain ⟨body, behind, rfl, hbody⟩ := List.eq_append_cons_of_mem hclosing
        have hlt : behind.length < n := by
          rw [← hn]
          simp only [List.length_append, List.length_cons]
          omega
        obtain ⟨pieces, hpieces⟩ := ih _ hlt behind rfl
        exact ⟨_, .closed hbefore hr hbody hpieces⟩
      · exact ⟨_, .unclosed hbefore hr hclosing⟩

/-! ### Openings that are taken -/

namespace Tracker

variable {t : Tracker} {r q : Rule}

theorem opened_add (hq : q ∈ t.rules) (hopening : q.opening = r.opening) (c : CodePoint) :
    (t.add r).opened c = t.opened c := by
  rw [opened, add, List.find?_append, ← opened]
  cases hopened : t.opened c with
  | some p => rfl
  | none =>
    have hc : r.opening ≠ c := hopening ▸ opened_eq_none_iff.1 hopened q hq
    simp [hc]

theorem observe_add (hq : q ∈ t.rules) (hopening : q.opening = r.opening) (c : CodePoint) :
    (t.add r).observe c = (t.observe c).add r := by
  cases hactive : t.active with
  | none =>
    have hactive' : (t.add r).active = none := hactive
    simp only [observe, hactive, hactive', opened_add hq hopening]
    rfl
  | some p =>
    have hactive' : (t.add r).active = some p := hactive
    simp only [observe, hactive, hactive']
    split
    · rfl
    · rfl

/-- **A rule whose opening is taken already changes nothing.** -/
theorem label_add (hq : q ∈ t.rules) (hopening : q.opening = r.opening) (text : List CodePoint) :
    (t.add r).label text = ((t.label text).1, (t.label text).2.add r) := by
  induction text generalizing t with
  | nil => rfl
  | cons c text ih =>
    have hescapes : (t.add r).escapes c = t.escapes c := by
      rw [escapes, escapes, opened_add hq hopening]
      rfl
    have hq' : q ∈ (t.observe c).rules := by rwa [rules_observe]
    rw [label, label, hescapes, observe_add hq hopening, ih hq']

end Tracker

namespace Stream

variable {σ : Type} [CharSource σ]

/-- **Each character is shown to the escape rules once, and they cut the text.**  Whatever is done
to a stream, except that a rule is registered, at all times the rules have been shown what was read
from the source, in order and each character once.  A text is escaped in the regions that it can be
cut into, and a rule whose opening is taken by another one before it makes no difference. -/
theorem shown_once (source : σ) (name : Option String) (l : Layout) (rules : List Rule) :
    (∀ ops : List Operation, (∀ op ∈ ops, op.Within Convention.KeepsRules) →
      let s := start source name l rules
      let r := s.recorded.run ops
      s.run ops = (r.1, r.2.mapSource Recorder.source) ∧
        (s.run ops).2.engine.tracker = r.2.source.chars.foldl Tracker.observe { rules := rules }) ∧
      (∀ text, (∃ pieces, Cut rules text pieces) ∧ ∀ pieces, Cut rules text pieces →
        ({ rules := rules } : Tracker).labelled text = labelsOf pieces) ∧
      ∀ r, ∀ q ∈ rules, q.opening = r.opening → ∀ text,
        (({ rules := rules ++ [r] } : Tracker).label text).1 =
          (({ rules := rules } : Tracker).label text).1 := by
  refine ⟨?_, fun text => ⟨exists_cut rules text, fun pieces h => h.labelled_eq⟩, ?_⟩
  · intro ops hops s r
    rw [← Tracker.after_eq_foldl]
    exact ⟨s.run_recorded ops, s.tracker_run hops⟩
  · intro r q hq hopening text
    let t : Tracker := { rules := rules }
    have hlabel : (t.add r).label text = ((t.label text).1, (t.label text).2.add r) :=
      Tracker.label_add hq hopening text
    show ((t.add r).label text).1 = (t.label text).1
    rw [hlabel]

/-- Comments, and text between bars. -/
def barred : List Rule := [⟨'#', '\n'⟩, ⟨'|', '|'⟩]

/-- A source that fails once between two regions. -/
def barredScript : ScriptSource :=
  { answers := "a|#| ".codePoints.map (fun c => .ok (some c)) ++
      .error (.raised "OSError" "gone") :: "#|".codePoints.map (fun c => .ok (some c)) }

/-- What is read after the error is one more region, although there is a bar in it. -/
theorem shown_once_barredScript :
    let s := start barredScript none {} barred
    let ops : List Operation := [.read (.int 9), .adopt (.indentMark (.text "[")), .read (.int 2)]
    let text := "a|#| #|".codePoints
    let pieces := [("a".codePoints, false), ("|#|".codePoints, true), (" ".codePoints, false),
      ("#|".codePoints, true)]
    (∀ op ∈ ops, op.Within Convention.KeepsRules) ∧
      (s.recorded.run ops).2.source.chars = text ∧
      (s.run ops).2.engine.tracker.active = some ⟨'#', '\n'⟩ ∧
      Cut barred text pieces ∧
      ({ rules := barred } : Tracker).labelled text = labelsOf pieces ∧
      (({ rules := barred ++ [⟨'|', '\n'⟩] } : Tracker).label text).1 =
        (({ rules := barred } : Tracker).label text).1 := by
  intro s ops text pieces
  have hops : ∀ op ∈ ops, op.Within Convention.KeepsRules := by
    simp [ops, Operation.Within, Convention.KeepsRules]
  have hchars : (s.recorded.run ops).2.source.chars = text := by decide +kernel
  have hbar : Rule.First barred '|' ⟨'|', '|'⟩ := ⟨[⟨'#', '\n'⟩], [], rfl, rfl, by simp⟩
  have hnote : Rule.First barred '#' ⟨'#', '\n'⟩ := ⟨[], [⟨'|', '|'⟩], rfl, rfl, by simp⟩
  have hcut : Cut barred text pieces :=
    @Cut.closed barred ['a'] ['#'] _ _ _ _ (by simp [barred]) hbar (by simp)
      (@Cut.unclosed barred [' '] ['|'] _ _ (by simp [barred]) hnote (by simp))
  obtain ⟨hseen, hlabelled, hadd⟩ := shown_once barredScript none {} barred
  obtain ⟨-, htracker⟩ := hseen ops hops
  refine ⟨hops, hchars, ?_, hcut, (hlabelled text).2 pieces hcut, ?_⟩
  · have htext : (s.run ops).2.engine.tracker =
        text.foldl Tracker.observe { rules := barred } := by rw [htracker, hchars]
    rw [htext]
    decide +kernel
  · exact hadd ⟨'|', '\n'⟩ ⟨'|', '|'⟩ (by simp [barred]) rfl text

end Stream

end Offside
