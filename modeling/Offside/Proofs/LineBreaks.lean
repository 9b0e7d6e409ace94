import Offside.Proofs.Ending
import Offside.Proofs.IdleLines
import Offside.Proofs.Installation

/-!
# Line breaks

Indentation is a matter of single lines, if the newline ends the whitespace that a line starts with.
It does so if it is no whitespace itself, or if it opens a region.  Then a newline is never held
back, so whatever has been held back is part of one line: no open level contains a newline, and
neither does the run that an error shows.  A line of whitespace is left alone.

Settings need not be of this kind.  If the newline is one of the whitespace characters and opens no
region, it is held back like any other, and a blank line runs on into the next one: the two are
indented together, by a level that contains the newline.

## Main definitions

* `Settings.RunsOn` — whitespace runs on over the end of a line.
* `Engine.EndsRuns` — it does not.
* `Engine.Unbroken` — no open level contains a newline, nor will one.
* `Stream.KeepsLines` — what is read keeps indentation within single lines.

## Main results

* `Stream.invariant_unbroken` — levels stay within lines at all times.
* `Stream.Midway.exists_after_line` — each line is reached, whatever lines before it do not fit.
* `Stream.Midway.echoes_line` — a line of whitespace is left alone.
* `Stream.levels_of_blank` — blanks open a level, whatever they consist of.
* `Stream.keepsLines_install` — **indentation stays within lines, unless whitespace runs on**.
-/

namespace Offside

/-- The newline is whitespace and opens no region. -/
def Settings.RunsOn (s : Settings) : Prop :=
  s.newline ∈ s.whitespace ∧ ({ rules := s.rules } : Tracker).opened s.newline = none

instance (s : Settings) : Decidable s.RunsOn :=
  inferInstanceAs (Decidable (_ ∧ _))

namespace Engine

variable {e e' : Engine} {file : Option String} {c : CodePoint} {run : List CodePoint}
  {answers : List (Except ReadError (Option CodePoint))} {error : Option ReadError}

/-! ### The newline ends the whitespace of a line -/

/-- The newline is no whitespace, or it opens a region. -/
def EndsRuns (e : Engine) : Prop :=
  e.layout.newline ∉ e.layout.whitespace ∨ e.tracker.opened e.layout.newline ≠ none

theorem EndsRuns.not_holds (h : e.EndsRuns) : ¬ e.holds e.layout.newline = true := by
  rw [holds_iff]
  rintro ⟨hesc, -, hmem⟩
  rcases h with hnotMem | hopened
  · exact hnotMem hmem
  · apply hopened
    rw [escapes, Tracker.escapes, Bool.or_eq_false_iff] at hesc
    simpa using hesc.2

theorem EndsRuns.congr (h : e.EndsRuns) (hlayout : e'.layout = e.layout)
    (hrules : e'.tracker.rules = e.tracker.rules) : e'.EndsRuns := by
  rw [EndsRuns, hlayout, Tracker.opened_congr hrules]
  exact h

/-- Hearing registers no rule. -/
theorem Hears.rules_eq (h : Hears file e answers error e') :
    e'.tracker.rules = e.tracker.rules := by
  induction h with
  | ended => rfl
  | fail => rfl
  | stop => rfl
  | hold hmore hc hrest ih => rw [ih, tracker_holdBack]
  | @pass e c =>
    exact (Tracker.rules_observe _ _).trans (congrArg Tracker.rules (e.tracker_arrive c))
  | @level e c => exact congrArg Tracker.rules (e.tracker_arrive c)
  | @misfit e c => exact congrArg Tracker.rules (e.tracker_arrive c)

/-- All characters that are heard but the last are held back. -/
theorem Hears.holds_of_mem_dropLast (h : Hears file e answers error e')
    (hc : .ok (some c) ∈ answers.dropLast) : e.holds c = true := by
  induction h with
  | @hold e e' d answers error hmore hd hrest ih =>
    cases answers with
    | nil => simp at hc
    | cons first answers =>
      rw [List.dropLast_cons_of_ne_nil (List.cons_ne_nil _ _), List.mem_cons] at hc
      rcases hc with hfirst | hc
      · obtain rfl : c = d := by simpa using hfirst
        exact hd
      · rw [← e.holds_holdBack d]
        exact ih hc
  -- otherwise there is one answer at most
  | _ => simp at hc

/-! ### Levels -/

/-- A character that is not held back gets neither into a level nor into the run of an error. -/
theorem Hears.notMem_indentation (h : Hears file e answers error e') (hc : ¬ e.holds c = true)
    (hlead : c ∉ e.lead) (hstack : c ∉ e.stack.indentation) :
    c ∉ e'.stack.indentation ∧ ∀ m, error = some (.mismatch m) →
      .error (.mismatch m) ∈ answers ∨ c ∉ m.run := by
  induction h with
  | ended => exact ⟨hstack, by simp⟩
  | fail hmore x =>
    refine ⟨hstack, fun m hm => Or.inl ?_⟩
    rw [Option.some.inj hm]
    exact List.mem_singleton_self _
  | stop => exact ⟨hstack, by simp⟩
  | @hold e e' d answers error hmore hd hrest ih =>
    -- what is held back is another character
    have hlead' : c ∉ (e.holdBack d).lead := by
      rw [holdBack, lead_enqueue, List.mem_append, List.mem_singleton, not_or]
      exact ⟨hlead, fun heq => hc (heq ▸ hd)⟩
    obtain ⟨hlevels, hrun⟩ := ih (by rwa [holds_holdBack]) hlead' (by rwa [stack_holdBack])
    exact ⟨hlevels, fun m hm => (hrun m hm).imp_left (List.mem_cons_of_mem _)⟩
  | @pass e d =>
    refine ⟨?_, by simp⟩
    show c ∉ (e.arrive d).stack.indentation
    rwa [stack_arrive]
  | @level e d stack hmore hd hadvance =>
    refine ⟨?_, by simp⟩
    show c ∉ stack.indentation
    rwa [Stack.indentation_of_advance? hadvance]
  | @misfit e d hmore hd hnone =>
    refine ⟨by rwa [stack_arrive], fun m hm => Or.inr ?_⟩
    obtain rfl : (e.arrive d).mismatch file e.lead = m := by simpa using hm
    exact hlead

/-- No open level contains a newline, nor will one. -/
structure Unbroken (e : Engine) : Prop where
  endsRuns : e.EndsRuns
  notMem : e.layout.newline ∉ e.stack.indentation

theorem Unbroken.of_mem_levels (h : e.Unbroken) {level : Level} (hlevel : level ∈ e.stack.levels) :
    e.layout.newline ∉ level.run := fun hmem =>
  h.notMem (List.mem_flatMap.2 ⟨level, hlevel, hmem⟩)

/-- **What is heard stays within a line.** -/
theorem Hears.unbroken (h : Hears file e answers error e') (hunbroken : e.Unbroken)
    (hq : e.queue = []) :
    e'.Unbroken ∧ ∀ m, error = some (.mismatch m) →
      .error (.mismatch m) ∈ answers ∨ e.layout.newline ∉ m.run := by
  have hlead : e.layout.newline ∉ e.lead := by simp [lead_of_queue_nil hq]
  obtain ⟨hlevels, hrun⟩ :=
    h.notMem_indentation hunbroken.endsRuns.not_holds hlead hunbroken.notMem
  exact ⟨⟨hunbroken.endsRuns.congr h.layout_eq h.rules_eq, by rwa [h.layout_eq]⟩, hrun⟩

/-! ### A line of whitespace -/

/-- **A line of whitespace decides about nothing.**  Some of it is held back, and what follows is
let out as it was read. -/
theorem EndsRuns.exists_passing (h : e.EndsRuns)
    (hrun : ∀ d ∈ run, d ∈ e.layout.whitespace ∧ d ≠ e.layout.newline) (file : Option String) :
    ∃ held d tail e₁, run ++ [e.layout.newline] = held ++ d :: tail ∧
      e.feedAll file held = ⟨[], .ok e₁, []⟩ ∧ e₁.Passing (d :: tail) := by
  induction run generalizing e with
  | nil =>
    refine ⟨[], e.layout.newline, [], e, rfl, rfl, ?_, trivial⟩
    -- the newline itself is not held back, and it decides about nothing
    rcases passes_or_decides h.not_holds with hpass | hdec
    · exact hpass
    · exact absurd rfl hdec.ne_newline
  | cons d run ih =>
    obtain ⟨hd, hrest⟩ := List.forall_mem_cons.1 hrun
    by_cases hholds : e.holds d = true
    · have hlayout : (e.holdBack d).layout = e.layout := e.layout_holdBack d
      have hends : (e.holdBack d).EndsRuns :=
        h.congr hlayout (congrArg Tracker.rules (e.tracker_holdBack d))
      obtain ⟨held, c, tail, e₁, hsplit, hheld, hpassing⟩ := ih hends (by rwa [hlayout])
      rw [hlayout] at hsplit
      refine ⟨d :: held, c, tail, e₁, by rw [List.cons_append, hsplit, List.cons_append], ?_,
        hpassing⟩
      have hrest' : ((e.arrive d).enqueue (some (.content d))).feedAll file held =
          ⟨[], .ok e₁, []⟩ := hheld
      rw [feedAll_cons_of_ok (feed_of_holds hholds file), hrest']
      rfl
    · -- behind a character that is no newline the line has begun
      refine ⟨[], d, run ++ [e.layout.newline], e, rfl, rfl, ?_, ?_⟩
      · rcases passes_or_decides hholds with hpass | hdec
        · exact hpass
        · exact absurd hd.1 hdec.notMem
      · apply passing_of_lineStart
        · rw [lineStart_pass, decide_eq_false hd.2]
        · rw [layout_pass, List.dropLast_concat]
          exact fun hmem => (hrest _ hmem).2 rfl

end Engine

namespace Stream

open Engine CharSource

/-! ### Levels at all times -/

section Levels

variable {σ : Type} {s : Stream σ}

theorem unbroken_handOut (h : s.engine.Unbroken) (hp : s.engine.Pending)
    (hne : s.engine.queue ≠ []) : s.handOut.next.engine.Unbroken := by
  rcases handOut_cases hp hne with ⟨t, rest, -, hs, -⟩ | ⟨-, -, -, hs⟩ | ⟨n, -, -, -, hs⟩
  · rw [hs]
    exact ⟨h.endsRuns, h.notMem⟩
  · rw [hs]
    exact ⟨h.endsRuns, h.notMem⟩
  · rw [hs]
    exact ⟨h.endsRuns, by simp [flushed, Stack.indentation]⟩

variable [CharSource σ]

/-- A request keeps the levels within lines, and the run of an error too, unless the source has sent
the error. -/
theorem unbroken_next (h : s.engine.Unbroken) (hopen : s.closed = false) (hp : s.engine.Pending) :
    s.next.next.engine.Unbroken ∧ ∀ m, s.next.outcome = .error (.mismatch m) →
      (∃ k, .error (.mismatch m) ∈ answers s.source k) ∨ s.engine.layout.newline ∉ m.run := by
  rcases next_hears hopen with ⟨hne, hs⟩ | ⟨hq, k, error, e, told, hhears, hs⟩
  · rw [hs]
    exact ⟨unbroken_handOut h hp hne, fun m hm => by cases hm⟩
  · obtain ⟨hunbroken, hrun⟩ := hhears.unbroken h hq
    rw [hs]
    cases error with
    | some x =>
      refine ⟨hunbroken, fun m hm => ?_⟩
      obtain rfl : x = .mismatch m := by simpa [reply] using hm
      exact (hrun m rfl).imp_left fun hmem => ⟨k, hmem⟩
    | none =>
      exact ⟨unbroken_handOut (s := s.fed k e) hunbroken (hhears.pending [] hq)
        hhears.queue_ne_nil, fun m hm => by cases hm⟩

/-- **Levels stay within lines at all times**, as long as the conventions stay. -/
theorem invariant_unbroken {l : Layout} : Invariant (fun _ => False) fun _ (s : Stream σ) =>
    s.engine.Pending ∧ s.engine.Unbroken ∧ s.engine.layout = l where
  next {_ s} h := by
    obtain ⟨hp, hu, hlayout⟩ := h
    cases hclosed : s.closed with
    | false =>
      exact ⟨pending_next hclosed hp, (unbroken_next hu hclosed hp).1,
        (layout_next hclosed).trans hlayout⟩
    | true =>
      rw [next_of_closed hclosed]
      exact ⟨hp, hu, hlayout⟩
  close _ h := h
  adopt hfalse _ := hfalse.elim

end Levels

/-! ### Every line is reached -/

variable {name : Option String} {e : Engine} {before rest run : List CodePoint}

/-- Between two requests, before the end of the input, with levels that stay within lines. -/
structure Midway (e : Engine) : Prop extends e.Unbroken where
  pending : e.Pending
  more : e.exhausted = false

/-- What is queued is handed out, and the text is left alone. -/
theorem Midway.exists_queue_nil (h : Midway e) (name : Option String) (rest : List CodePoint) :
    ∃ k e', (ofText name e rest).after k = ofText name e' rest ∧ Midway e' ∧ e'.queue = [] ∧
      e'.layout = e.layout := by
  cases h.pending with
  | empty hq => exact ⟨0, e, rfl, h, hq, rfl⟩
  | line tokens c hq =>
    obtain ⟨-, hafter⟩ := outcomes_of_queue (s := ofText name e rest) rfl tokens (.content c) []
      (by rw [List.append_nil]; exact hq)
    exact ⟨_, _, hafter, ⟨⟨h.endsRuns, h.notMem⟩, .empty rfl, h.more⟩, rfl, rfl⟩
  | ending tokens hended hq =>
    rw [h.more] at hended
    exact absurd hended Bool.false_ne_true

/-- **A request takes characters of one line only.** -/
theorem Midway.exists_next (h : Midway e) (hq : e.queue = [])
    (hlast : before.getLast? = some e.layout.newline) (name : Option String)
    (rest : List CodePoint) :
    ∃ taken left e', before = taken ++ left ∧ taken ≠ [] ∧
      (ofText name e (before ++ rest)).next.next = ofText name e' (left ++ rest) ∧ Midway e' ∧
      e'.layout = e.layout := by
  let s := ofText name e (before ++ rest)
  rcases next_hears (s := s) rfl with ⟨hne, -⟩ | ⟨-, k, error, e₁, told, hhears, hs⟩
  · exact absurd hq hne
  have hle : k ≤ before.length := by
    -- otherwise more is heard behind the newline, and it would be held back
    by_contra hlt
    obtain ⟨j, rfl⟩ : ∃ j, k = before.length + (j + 1) := ⟨k - before.length - 1, by omega⟩
    have hbehind : answers (asked s.source before.length) (j + 1) ≠ [] := by simp [answers_succ]
    have hbefore : answers s.source before.length = before.map fun c => .ok (some c) :=
      (answers_text before rest name).1
    have hmem : .ok (some e.layout.newline) ∈
        (answers s.source (before.length + (j + 1))).dropLast := by
      rw [answers_add, List.dropLast_append_of_ne_nil hbehind, hbefore]
      exact List.mem_append_left _ (List.mem_map_of_mem (List.mem_of_getLast? hlast))
    exact h.endsRuns.not_holds (hhears.holds_of_mem_dropLast hmem)
  -- before the end of the input a request hears something
  have hpos : k ≠ 0 := by
    rintro rfl
    have hnone : Hears name e [] error e₁ := hhears
    cases hnone with
    | ended hended => simp [h.more] at hended
  obtain ⟨hanswers, hasked⟩ := answers_text (before.take k) (before.drop k ++ rest) name
  rw [← List.append_assoc, List.take_append_drop, List.length_take_of_le hle] at hanswers hasked
  have hfed : s.fed k e₁ = ofText name e₁ (before.drop k ++ rest) :=
    congrArg (fun source => ({ source, name, engine := e₁ } : Stream TextSource)) hasked
  -- only characters have been heard, so the end has not been met
  have hmore : e₁.exhausted = false := by
    by_contra hended
    rw [Bool.not_eq_false] at hended
    have hmem : .ok none ∈ (before.take k).map fun c => (.ok (some c) : Except ReadError _) :=
      hanswers ▸ hhears.mem_of_exhausted h.more hended
    obtain ⟨d, -, hd⟩ := List.mem_map.1 hmem
    cases hd
  obtain ⟨hunbroken, -⟩ := unbroken_next (s := s) h.toUnbroken rfl h.pending
  have hpending := pending_next (s := s) rfl h.pending
  have htaken : before.take k ≠ [] := by
    rw [Ne, List.take_eq_nil_iff, not_or]
    exact ⟨hpos, fun hnil => by simp [hnil] at hlast⟩
  refine ⟨before.take k, before.drop k, s.next.next.engine, (List.take_append_drop k before).symm,
    htaken, ?_, ⟨hunbroken, hpending, ?_⟩, layout_next (s := s) rfl⟩
  · show s.next.next = ofText name s.next.next.engine (before.drop k ++ rest)
    rw [hs, hfed]
    cases error with
    | some x => rfl
    | none => rfl
  · rw [hs]
    cases error with
    | some x => exact hmore
    | none => exact (exhausted_handOut (s.fed k e₁)).trans hmore

/-- **Each line is reached with nothing queued**, whatever lines before it do not fit. -/
theorem Midway.exists_after_line (h : Midway e)
    (hbefore : before = [] ∨ before.getLast? = some e.layout.newline) (name : Option String)
    (rest : List CodePoint) :
    ∃ k e', (ofText name e (before ++ rest)).after k = ofText name e' rest ∧ Midway e' ∧
      e'.queue = [] ∧ e'.layout = e.layout := by
  -- on the length of the lines before: each request takes some of it
  induction hlength : before.length using Nat.strong_induction_on generalizing e before with
  | _ n ih =>
    obtain ⟨j, e₁, hafter₁, he₁, hq, hlayout₁⟩ := h.exists_queue_nil name (before ++ rest)
    rcases hbefore with rfl | hlast
    · exact ⟨j, e₁, hafter₁, he₁, hq, hlayout₁⟩
    · obtain ⟨taken, left, e₂, rfl, htaken, hnext, he₂, hlayout₂⟩ :=
        he₁.exists_next hq (by rwa [hlayout₁]) name rest
      -- what is left of the lines before still ends with a newline, if it is not empty
      have hleft : left = [] ∨ left.getLast? = some e₂.layout.newline := by
        rcases List.eq_nil_or_concat left with rfl | ⟨start, d, rfl⟩
        · exact Or.inl rfl
        · rw [List.concat_eq_append, ← List.append_assoc, List.getLast?_concat] at hlast
          rw [List.concat_eq_append, List.getLast?_concat, hlayout₂, hlayout₁]
          exact Or.inr hlast
      have hlt : left.length < n := by
        have hpos := List.length_pos_of_ne_nil htaken
        rw [List.length_append] at hlength
        omega
      obtain ⟨k, e', hafter, he', hq', hlayout'⟩ := ih left.length hlt he₂ hleft rfl
      refine ⟨j + (k + 1), e', ?_, he', hq', hlayout'.trans (hlayout₂.trans hlayout₁)⟩
      rw [after_add, hafter₁, after_succ, hnext, hafter]

/-- **A line of whitespace is echoed**, wherever it is. -/
theorem Midway.echoes_line (h : Midway e) (hq : e.queue = [])
    (hrun : ∀ d ∈ run, d ∈ e.layout.whitespace ∧ d ≠ e.layout.newline) (name : Option String)
    (rest : List CodePoint) :
    (ofText name e (run ++ e.layout.newline :: rest)).Echoes (run ++ [e.layout.newline]) ∧
      ((ofText name e (run ++ e.layout.newline :: rest)).after (run.length + 1)).source.rest =
        rest := by
  have he : e.Leading := by
    refine ⟨?_, fun _ => hq, h.more⟩
    rw [lead_of_queue_nil hq, hq]
    rfl
  obtain ⟨held, d, tail, e₁, hsplit, hheld, hpassing⟩ := h.endsRuns.exists_passing hrun name
  obtain ⟨hechoes, hafter⟩ := echoes_run he hq hheld hpassing rest
  have hall : held ++ d :: (tail ++ rest) = run ++ e.layout.newline :: rest := by
    have := congrArg (· ++ rest) hsplit.symm
    simpa using this
  rw [← hsplit, hall] at hechoes hafter
  rw [List.length_append, List.length_singleton] at hafter
  exact ⟨hechoes, by rw [hafter]; rfl⟩

/-! ### Settings -/

/-- What is read from a stream over a text keeps indentation within lines.  At all times no open
level contains a newline, and neither does the run that an error shows.  A line that is nothing but
whitespace and its newline is reached with nothing queued; it is handed out as it stands, and the
levels stay. -/
structure KeepsLines (s : Stream TextSource) : Prop where
  levels : ∀ ops : List Operation, (∀ op ∈ ops, op.Within fun _ => False) →
    ∀ level ∈ (s.run ops).2.engine.stack.levels, s.engine.layout.newline ∉ level.run
  mismatch : ∀ ops : List Operation, (∀ op ∈ ops, op.Within fun _ => False) →
    ∀ m, (s.run ops).2.next.outcome = .error (.mismatch m) → s.engine.layout.newline ∉ m.run
  blank : ∀ before run rest, s.source.rest = before ++ (run ++ s.engine.layout.newline :: rest) →
    (before = [] ∨ before.getLast? = some s.engine.layout.newline) →
    (∀ d ∈ run, d ∈ s.engine.layout.whitespace ∧ d ≠ s.engine.layout.newline) →
    ∃ k, (s.after k).engine.queue = [] ∧
      (s.after k).source.rest = run ++ s.engine.layout.newline :: rest ∧
      (s.after k).Echoes (run ++ [s.engine.layout.newline]) ∧
      ((s.after k).after (run.length + 1)).source.rest = rest

theorem keepsLines_ofText {l : Layout} {rules : List Rule} (hends : (fresh l rules).EndsRuns)
    (name : Option String) (text : List CodePoint) :
    (ofText name (fresh l rules) text).KeepsLines := by
  have hunbroken : (fresh l rules).Unbroken := ⟨hends, by simp [fresh, Stack.indentation]⟩
  have hmidway : Midway (fresh l rules) := ⟨hunbroken, .empty rfl, rfl⟩
  have hrun (ops : List Operation) (hops : ∀ op ∈ ops, op.Within fun _ => False) :=
    @Invariant.run _ _ _ _ [] (ofText name (fresh l rules) text) invariant_unbroken
      ⟨.empty rfl, hunbroken, rfl⟩ _ hops
  constructor
  · intro ops hops level hlevel
    obtain ⟨-, hu, hlayout⟩ := hrun ops hops
    have hnotMem := hu.of_mem_levels hlevel
    rwa [hlayout] at hnotMem
  · intro ops hops m hm
    -- an error that is handed on was found in the text, which has none
    obtain ⟨hp, hu, hlayout⟩ := hrun ops hops
    cases hclosed : ((ofText name (fresh l rules) text).run ops).2.closed with
    | true =>
      rw [next_of_closed hclosed] at hm
      cases hm
    | false =>
      obtain ⟨-, herror⟩ := unbroken_next hu hclosed hp
      rcases herror m hm with ⟨k, hsent⟩ | hnotMem
      · exact absurd hsent (error_notMem_answers _ k _)
      · rwa [hlayout] at hnotMem
  · intro before run rest htext hbefore hwhitespace
    -- the lines before are read up to this one, and then nothing is queued
    obtain ⟨k, e', hafter, he', hq, hlayout⟩ :=
      hmidway.exists_after_line hbefore name (run ++ l.newline :: rest)
    have htext' : text = before ++ (run ++ l.newline :: rest) := htext
    have hnewline : e'.layout.newline = l.newline := congrArg Layout.newline hlayout
    have hwhitespace' : ∀ d ∈ run, d ∈ e'.layout.whitespace ∧ d ≠ e'.layout.newline := by
      rwa [hlayout]
    obtain ⟨hechoes, hrest⟩ := he'.echoes_line hq hwhitespace' name rest
    rw [hnewline] at hechoes hrest
    refine ⟨k, ?_⟩
    rw [htext', hafter]
    exact ⟨hq, rfl, hechoes, hrest⟩

/-- **Blanks open a level**, whatever they consist of. -/
theorem levels_of_blank {l : Layout} {rules : List Rule} {c : CodePoint} (hrun : l.Blank rules run)
    (hne : run ≠ []) (hc : c ∉ l.whitespace) (hnewline : c ≠ l.newline)
    (hopened : ({ rules := rules } : Tracker).opened c = none) (name : Option String)
    (rest : List CodePoint) :
    (ofText name (fresh l rules) (run ++ c :: rest)).next.next.engine.stack.levels =
      [⟨run, hne⟩] := by
  have hfresh : (fresh l rules).Leading := leading_fresh l rules
  obtain ⟨e, hfed, hlead, hstack, hline⟩ := feedAll_run hfresh rfl name hrun.leads
  have htracker : e.tracker = { rules := rules } := (tracker_feedAll hfed).trans hrun.after_eq
  have hlayout : e.layout = l := layout_feedAll hfed
  have hdecides : e.Decides c := by
    refine ⟨?_, hline, by rwa [hlayout], by rwa [hlayout]⟩
    rw [escapes_eq_false_iff, htracker]
    exact ⟨rfl, hopened⟩
  -- no level is open yet, so any run opens one
  have hadvance : e.stack.advance? e.lead = some (Stack.push {} ⟨run, hne⟩) := by
    rw [hlead, hstack]
    exact Stack.advance?_append {} hne
  have hfeed := feed_of_decides hdecides name
  rw [hadvance] at hfeed
  obtain ⟨-, -, hsame⟩ := outcomes_of_feed hfresh rfl hfed hdecides.not_holds hfeed rest
  exact congrArg Stack.levels (hsame 0 (List.length_pos_of_ne_nil (by simp))).stack_eq

/-- **Indentation stays within lines, unless whitespace runs on.**  Settings can be installed in a
stream over any text.  If the newline is no whitespace, or if it opens a region, then what is read
keeps indentation within single lines.  Otherwise nothing ends the whitespace at the start of the
text but a character of another kind, and if there is a newline in it the level of the first line
contains one. -/
theorem keepsLines_install (s : Settings) (text : List CodePoint) (name : Option String) :
    ∃ fresh, install ({ rest := text, name := name } : TextSource) s none = .ok fresh ∧
      (¬ s.RunsOn → fresh.KeepsLines) ∧
      (s.RunsOn → ∀ run c rest, text = run ++ c :: rest → s.newline ∈ run →
        (∀ d ∈ run, d ∈ s.whitespace ∧ ({ rules := s.rules } : Tracker).opened d = none) →
        c ∉ s.whitespace → ({ rules := s.rules } : Tracker).opened c = none →
        ∃ level ∈ fresh.next.next.engine.stack.levels, s.newline ∈ level.run) := by
  have hforce := s.inForce_ofSettings
  have hnewline : s.layout.newline = s.newline := hforce.newline_eq
  have hmem (c : CodePoint) : c ∈ s.layout.whitespace ↔ c ∈ s.whitespace :=
    hforce.mem_whitespace_iff c
  -- the settings are those in force, whatever their spelling
  refine ⟨ofText name (fresh s.layout s.rules) text, install_eq _ s none, ?_, ?_⟩
  · intro hends
    apply keepsLines_ofText
    rw [Settings.RunsOn, not_and_or, ← hnewline, ← hmem] at hends
    exact hends
  · intro hruns run c rest htext hin hrun hc hopened
    have hne : run ≠ [] := List.ne_nil_of_mem hin
    have hrun' : s.layout.Blank s.rules run := fun d hd =>
      ⟨(hmem d).2 (hrun d hd).1, (hrun d hd).2⟩
    have hc' : c ≠ s.layout.newline := by
      rw [hnewline]
      exact fun heq => hc (heq ▸ hruns.1)
    have hlevels := levels_of_blank hrun' hne (by rwa [hmem]) hc' hopened name rest
    rw [htext, hlevels]
    exact ⟨_, List.mem_singleton_self _, hin⟩

/-- Settings with brackets that take a newline for whitespace. -/
def runOnSettings : Settings := { whitespace := [' ', '\n'], pairedEscapes := "()".codePoints }

/-- A deep line of whitespace is left alone; with the newline taken for whitespace, a blank line and
the next are indented together. -/
theorem keepsLines_install_blank :
    (¬ ({} : Settings).RunsOn ∧ ∃ fresh,
      install ({ rest := "a\n  \t\n b".codePoints } : TextSource) {} none = .ok fresh ∧
        ∃ k, (fresh.after k).Echoes "  \t\n".codePoints) ∧
      runOnSettings.RunsOn ∧ ∃ fresh,
        install ({ rest := "\n b".codePoints } : TextSource) runOnSettings none = .ok fresh ∧
          ∃ level ∈ fresh.next.next.engine.stack.levels, .char '\n' ∈ level.run := by
  have hends : ¬ ({} : Settings).RunsOn := by decide +kernel
  have hruns : runOnSettings.RunsOn := by decide +kernel
  refine ⟨⟨hends, ?_⟩, hruns, ?_⟩
  · obtain ⟨fresh, hinstall, hkeeps, -⟩ := keepsLines_install {} "a\n  \t\n b".codePoints none
    let t : Stream TextSource := ofSettings { rest := "a\n  \t\n b".codePoints } {} none
    obtain rfl : t = fresh := Except.ok.inj ((install_eq _ {} none).symm.trans hinstall)
    have hblank : ("  \t".codePoints.all fun d =>
        d ∈ t.engine.layout.whitespace ∧ d ≠ t.engine.layout.newline) = true := by decide +kernel
    obtain ⟨k, -, -, hechoes, -⟩ := (hkeeps hends).blank "a\n" "  \t" " b" rfl (by decide +kernel)
      fun d hd => of_decide_eq_true (List.all_eq_true.1 hblank d hd)
    exact ⟨t, hinstall, k, hechoes⟩
  · obtain ⟨fresh, hinstall, -, hbreaks⟩ := keepsLines_install runOnSettings "\n b".codePoints none
    have hrun : ("\n ".codePoints.all fun d => d ∈ runOnSettings.whitespace ∧
        ({ rules := runOnSettings.rules } : Tracker).opened d = none) = true := by
      decide +kernel
    exact ⟨fresh, hinstall, hbreaks hruns "\n ".codePoints 'b' [] rfl (by decide +kernel)
      (fun d hd => of_decide_eq_true (List.all_eq_true.1 hrun d hd)) (by decide +kernel)
      (by decide +kernel)⟩

/-- So not all settings keep indentation within lines. -/
theorem runOnSettings_breaks_lines :
    ¬ ∀ (s : Settings) (text : List CodePoint), ∀ fresh,
      install ({ rest := text } : TextSource) s none = .ok fresh → fresh.KeepsLines := by
  intro h
  let source : TextSource := { rest := "a\n\n b".codePoints }
  have hkeeps : (ofSettings source runOnSettings none).KeepsLines :=
    h runOnSettings "a\n\n b".codePoints _ (install_eq source runOnSettings none)
  have hlevel := hkeeps.levels [.read (.int 4)] (by simp [Operation.Within])
    ⟨['\n', ' '], by simp⟩ (by decide +kernel)
  exact hlevel (by decide +kernel)

end Stream

end Offside
