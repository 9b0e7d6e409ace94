import Offside.Proofs.Batch

/-!
# Aligned lines

Whether a line is malformed can be said by the lines before it alone, without a stack.  A run
**resumes** an earlier line if it is the run of that line and all lines since start with it; then
the block of the earlier line is still open.  A line is **misaligned** if its run is not empty,
does not extend the run of the line before and resumes no line.

The open blocks are at all times the runs that could be resumed, so the first misaligned line is
the one at which reading fails.

## Main definitions

* `Resumes`, `Misaligned` — the law.

## Main results

* `Stack.isOpen_foldlM_take` — the open blocks are the runs that can be resumed.
* `Stack.advance?_eq_none_iff_misaligned`, `Stack.foldlM_eq_none_iff` — a line is malformed if and
  only if it is misaligned.
* `Stream.mismatch_iff_misaligned` — **reading fails at the first misaligned line.**
-/

namespace Offside

/-! ### The law -/

/-- The run `r` could stand before line `i`: it is the run of an earlier line, and all lines since
start with it. -/
def Resumes (runs : List (List CodePoint)) (i : Nat) (r : List CodePoint) : Prop :=
  ∃ j < i, r ∈ runs[j]? ∧ ∀ k < i, j < k → ∀ q ∈ runs[k]?, r <+: q

/-- The run of line `i` is not empty, does not extend that of the line before, and resumes none. -/
def Misaligned (runs : List (List CodePoint)) (i : Nat) : Prop :=
  0 < i ∧ ∃ r ∈ runs[i]?, r ≠ [] ∧ (∃ p ∈ runs[i - 1]?, ¬ p <+: r) ∧ ¬ Resumes runs i r

instance (runs : List (List CodePoint)) (i : Nat) (r : List CodePoint) :
    Decidable (Resumes runs i r) :=
  inferInstanceAs (Decidable (∃ j < i, r ∈ runs[j]? ∧ ∀ k < i, j < k → ∀ q ∈ runs[k]?, r <+: q))

instance (runs : List (List CodePoint)) (i : Nat) : Decidable (Misaligned runs i) :=
  inferInstanceAs (Decidable (0 < i ∧ ∃ r ∈ runs[i]?,
    r ≠ [] ∧ (∃ p ∈ runs[i - 1]?, ¬ p <+: r) ∧ ¬ Resumes runs i r))

variable {runs : List (List CodePoint)} {i : Nat} {p r : List CodePoint}

@[simp] theorem not_resumes_zero (runs : List (List CodePoint)) (r : List CodePoint) :
    ¬ Resumes runs 0 r := by
  rintro ⟨j, hj, -⟩
  exact Nat.not_lt_zero j hj

/-- The runs that can be resumed after one more line. -/
theorem resumes_succ_iff (hr : runs[i]? = some r) :
    Resumes runs (i + 1) p ↔ p = r ∨ (Resumes runs i p ∧ p <+: r) := by
  constructor
  · rintro ⟨j, hj, hp, hsince⟩
    rcases Nat.lt_or_eq_of_le (Nat.le_of_lt_succ hj) with hlt | rfl
    · refine Or.inr ⟨⟨j, hlt, hp, fun k hk => hsince k (Nat.lt_succ_of_lt hk)⟩, ?_⟩
      exact hsince i (Nat.lt_succ_self i) hlt r hr
    · rw [Option.mem_def, hr, Option.some.injEq] at hp
      exact Or.inl hp.symm
  · rintro (rfl | ⟨⟨j, hj, hp, hsince⟩, hpre⟩)
    · exact ⟨i, Nat.lt_succ_self i, hr, fun k hk hik => by omega⟩
    · refine ⟨j, Nat.lt_succ_of_lt hj, hp, fun k hk hjk q hq => ?_⟩
      rcases Nat.lt_or_eq_of_le (Nat.le_of_lt_succ hk) with hlt | rfl
      · exact hsince k hlt hjk q hq
      · rw [Option.mem_def, hr, Option.some.injEq] at hq
        exact hq ▸ hpre

namespace Stack

variable {s : Stack}

/-- One more line, at the end of those that were read. -/
theorem foldlM_take_succ (hr : runs[i]? = some r) (s : Stack) :
    (runs.take (i + 1)).foldlM advance? s =
      ((runs.take i).foldlM advance? s).bind fun s' => s'.advance? r := by
  rw [List.take_add_one, hr, Option.toList_some, List.foldlM_append]
  simp [bind]

/-- The stack spells the run of the last line. -/
theorem indentation_foldlM_take (hr : runs[i]? = some r)
    (h : (runs.take (i + 1)).foldlM advance? {} = some s) : s.indentation = r := by
  rw [foldlM_take_succ hr, Option.bind_eq_some_iff] at h
  obtain ⟨s', -, h⟩ := h
  exact indentation_of_advance? h

/-- **The open blocks are the runs that can be resumed**, and the text itself. -/
theorem isOpen_foldlM_take (hi : i ≤ runs.length)
    (h : (runs.take i).foldlM advance? {} = some s) : s.IsOpen p ↔ p = [] ∨ Resumes runs i p := by
  induction i generalizing s with
  | zero =>
    obtain rfl : {} = s := by simpa using h
    simp
  | succ i ih =>
    have hr : runs[i]? = some runs[i] := List.getElem?_eq_getElem hi
    rw [foldlM_take_succ hr, Option.bind_eq_some_iff] at h
    obtain ⟨s', hs', h⟩ := h
    rw [isOpen_advance?_iff h, ih (Nat.le_of_lt hi) hs', resumes_succ_iff hr]
    constructor
    · rintro (rfl | ⟨rfl | hres, hpre⟩)
      · exact Or.inr (Or.inl rfl)
      · exact Or.inl rfl
      · exact Or.inr (Or.inr ⟨hres, hpre⟩)
    · rintro (rfl | rfl | ⟨hres, hpre⟩)
      · exact Or.inr ⟨Or.inl rfl, List.nil_prefix⟩
      · exact Or.inl rfl
      · exact Or.inr ⟨Or.inr hres, hpre⟩

/-- **A line is malformed if and only if it is misaligned**, if the lines before it are not. -/
theorem advance?_eq_none_iff_misaligned (hr : runs[i]? = some r)
    (h : (runs.take i).foldlM advance? {} = some s) : s.advance? r = none ↔ Misaligned runs i := by
  obtain ⟨hi, -⟩ := List.getElem?_eq_some_iff.1 hr
  have hopen : (∀ m ≤ s.depth, r ≠ s.outer m) ↔ ¬ s.IsOpen r := by
    simp [IsOpen, eq_comm]
  rw [advance?_eq_none_iff, hopen, isOpen_foldlM_take (Nat.le_of_lt hi) h, not_or]
  constructor
  · rintro ⟨hext, hne, hres⟩
    cases i with
    | zero =>
      -- the first line is never malformed, since every run extends the empty one
      obtain rfl : {} = s := by simpa using h
      exact absurd List.nil_prefix hext
    | succ n =>
      have hn : runs[n]? = some runs[n] := List.getElem?_eq_getElem (Nat.lt_of_succ_lt hi)
      rw [indentation_foldlM_take hn h] at hext
      exact ⟨Nat.succ_pos n, r, hr, hne, ⟨_, hn, hext⟩, hres⟩
  · rintro ⟨hpos, r', hr', hne, ⟨p, hp, hpre⟩, hres⟩
    obtain rfl : r = r' := by simpa [hr] using hr'
    obtain ⟨n, rfl⟩ : ∃ n, i = n + 1 := ⟨i - 1, by omega⟩
    exact ⟨by rwa [indentation_foldlM_take hp h], hne, hres⟩

/-- The lines up to the first malformed one. -/
theorem exists_of_foldlM_eq_none (h : runs.foldlM advance? s = none) :
    ∃ i s' r, (runs.take i).foldlM advance? s = some s' ∧ runs[i]? = some r ∧
      s'.advance? r = none := by
  induction runs generalizing s with
  | nil => simp at h
  | cons r runs ih =>
    cases hr : s.advance? r with
    | none => exact ⟨0, s, r, rfl, rfl, hr⟩
    | some s₁ =>
      rw [List.foldlM_cons, hr] at h
      obtain ⟨i, s', r', hs', hr', hnone⟩ := ih h
      refine ⟨i + 1, s', r', ?_, hr', hnone⟩
      rw [List.take_succ_cons, List.foldlM_cons, hr]
      exact hs'

/-- Lines that are not malformed are not misaligned. -/
theorem not_misaligned_of_foldlM_take {n : Nat} (h : (runs.take n).foldlM advance? {} = some s)
    (hi : i < n) : ¬ Misaligned runs i := by
  intro hmis
  obtain ⟨-, r, hr, -⟩ := id hmis
  -- the stack exists after `i` lines, and line `i` has advanced it
  obtain ⟨rest, hrest⟩ := List.take_prefix_take_left (l := runs) (show i + 1 ≤ n from hi)
  rw [← hrest, List.foldlM_append, foldlM_take_succ hr] at h
  obtain ⟨s', hs', -⟩ := Option.bind_eq_some_iff.1 h
  obtain ⟨s₁, hs₁, hadvance⟩ := Option.bind_eq_some_iff.1 hs'
  rw [(advance?_eq_none_iff_misaligned hr hs₁).2 hmis] at hadvance
  simp at hadvance

/-- The first malformed line is the first misaligned one. -/
theorem misaligned_length {before : List (List CodePoint)}
    (h : before.foldlM advance? {} = some s) (hnone : s.advance? r = none)
    (after : List (List CodePoint)) :
    Misaligned (before ++ r :: after) before.length ∧
      ∀ i < before.length, ¬ Misaligned (before ++ r :: after) i := by
  have htake : ((before ++ r :: after).take before.length).foldlM advance? {} = some s := by
    rw [List.take_left, h]
  have hr : (before ++ r :: after)[before.length]? = some r := by simp
  refine ⟨(advance?_eq_none_iff_misaligned hr htake).1 hnone, ?_⟩
  intro i hi
  exact not_misaligned_of_foldlM_take htake hi

/-- **Some line is malformed if and only if some line is misaligned.** -/
theorem foldlM_eq_none_iff : runs.foldlM advance? {} = none ↔ ∃ i, Misaligned runs i := by
  constructor
  · intro h
    obtain ⟨i, s, r, hs, hr, hnone⟩ := exists_of_foldlM_eq_none h
    exact ⟨i, (advance?_eq_none_iff_misaligned hr hs).1 hnone⟩
  · rintro ⟨i, hi⟩
    -- a stack for all lines would be one for those up to the misaligned one
    cases h : runs.foldlM advance? {} with
    | none => rfl
    | some s =>
      obtain ⟨-, r, hr, -⟩ := id hi
      obtain ⟨hlt, -⟩ := List.getElem?_eq_some_iff.1 hr
      rw [← List.take_length (l := runs)] at h
      exact absurd hi (not_misaligned_of_foldlM_take h hlt)

end Stack

/-! ### The place of the first misaligned line -/

/-- The error says where the line after some others is, and what is wrong with it. -/
structure Mismatch.Locates (m : Mismatch) (l : Layout) (before : List (List (CodePoint × Bool)))
    (line : List (CodePoint × Bool)) (stack : Stack) : Prop where
  line_eq : m.line = 1 + (Layout.unlines before).count l.newline
  column_eq : m.column = (l.run line).length + 1
  run_eq : m.run = l.run line
  depth_eq : m.depth = stack.depth
  matched_le : m.matched ≤ stack.depth
  prefix_iff : ∀ k ≤ stack.depth, stack.outer k <+: l.run line ↔ (k : Int) ≤ m.matched
  remainder_eq : stack.outer m.matched.toNat ++ m.remainder = l.run line

namespace Stream

/-- **Reading fails at the first misaligned line**, and delivers what reading the text before that
line delivers, up to the marks at the end of the input. -/
theorem mismatch_iff_misaligned (l : Layout) (rules : List Rule) (name : Option String)
    (text : List CodePoint) (hn : l.newline ∉ l.whitespace) :
    ((∃ m, ((ofText name (.fresh l rules) text).read (-1)).outcome = .error (.mismatch m)) ↔
        ∃ i, Misaligned (l.contentRuns (l.linesOf rules text)) i) ∧
      ∀ i, Misaligned (l.contentRuns (l.linesOf rules text)) i →
        (∀ j < i, ¬ Misaligned (l.contentRuns (l.linesOf rules text)) j) →
        ∃ before line after stack m, l.linesOf rules text = before ++ line :: after ∧
          l.isContent line = true ∧ (l.contentRuns before).length = i ∧
          (l.contentRuns before).foldlM Stack.advance? {} = some stack ∧
          ((ofText name (.fresh l rules) text).read (-1)).outcome = .error (.mismatch m) ∧
          m.Locates l before line stack ∧ m.file = name ∧
          (ofText name (.fresh l rules) (Layout.unlines before)).drain.2.outcome = .ok () ∧
          (ofText name (.fresh l rules) (Layout.unlines before)).drain.1 =
            (ofText name (.fresh l rules) text).drain.1 ++
              List.replicate stack.depth ⟨.dedent, l.dedentMark⟩ := by
  rw [read_eq_drain, Reply.outcome_map]
  -- what reading comes to is told by the rendering of the lines
  cases hrender : l.render {} (l.linesOf rules text) with
  | some r =>
    obtain ⟨out, stack⟩ := r
    obtain ⟨next, notices, hdrain⟩ := drain_fresh_of_render_eq_some hn name hrender
    -- all lines fit: no line is misaligned, and no error comes
    have hnone : ¬ ∃ i, Misaligned (l.contentRuns (l.linesOf rules text)) i := by
      rw [← Stack.foldlM_eq_none_iff, Layout.foldlM_contentRuns, hrender]
      simp
    refine ⟨⟨?_, fun h => absurd h hnone⟩, fun i hi => absurd ⟨i, hi⟩ hnone⟩
    rintro ⟨m, hm⟩
    rw [hdrain] at hm
    simp [Except.map] at hm
  | none =>
    obtain ⟨before, line, after, out, stack, next, notices, hlines, hbefore, hcontent, hnone,
      hdrain⟩ := drain_fresh_of_render_eq_none hn name hrender
    -- the line that is not rendered is the first misaligned one
    have hruns : l.contentRuns (l.linesOf rules text) =
        l.contentRuns before ++ l.run line :: l.contentRuns after := by
      rw [hlines, Layout.contentRuns_append, Layout.contentRuns_cons_of_isContent hcontent]
    have hstack : (l.contentRuns before).foldlM Stack.advance? {} = some stack := by
      rw [Layout.foldlM_contentRuns, hbefore, Option.map_some]
    obtain ⟨hmis, hfirst⟩ := Stack.misaligned_length hstack hnone (l.contentRuns after)
    rw [← hruns] at hmis hfirst
    refine ⟨⟨fun _ => ⟨_, hmis⟩, fun _ => ⟨_, by rw [hdrain]; rfl⟩⟩, fun i hi hi' => ?_⟩
    obtain rfl : (l.contentRuns before).length = i := by
      -- two lines that are both the first are the same
      rcases Nat.lt_trichotomy (l.contentRuns before).length i with hlt | heq | hgt
      · exact absurd hmis (hi' _ hlt)
      · exact heq
      · exact absurd hi (hfirst i hgt)
    -- the text before the line has the lines before it, and all of them fit
    rw [← Layout.linesOf_unlines hlines] at hbefore
    obtain ⟨end', told, hend⟩ := drain_fresh_of_render_eq_some hn name hbefore
    refine ⟨before, line, after, stack, _, hlines, hcontent, rfl, hstack, by rw [hdrain]; rfl, ?_,
      rfl, by rw [hend], by rw [hend, hdrain]⟩
    exact
      { line_eq := rfl
        column_eq := rfl
        run_eq := rfl
        depth_eq := rfl
        matched_le := Int.ofNat_le.2 (stack.matched_le_depth _)
        prefix_iff := fun k hk => by rw [← Stack.le_matched_iff hk, Int.ofNat_le]
        remainder_eq := stack.outer_matched_append_leftover _ }

/-- A block of one tab, then a line that starts a region of three lines, and a line that is one
space off. -/
def skewedText : List CodePoint := "a\n\tb\n  (c\n\n d)\n \te\n".codePoints

/-- The third line with content is the first misaligned one. -/
theorem mismatch_skewedText :
    (Layout.newline {} ∉ Layout.whitespace {}) ∧
      Misaligned (Layout.contentRuns {} (Layout.linesOf {} [⟨'(', ')'⟩] skewedText)) 2 ∧
      (∀ j < 2,
        ¬ Misaligned (Layout.contentRuns {} (Layout.linesOf {} [⟨'(', ')'⟩] skewedText)) j) ∧
      ∃ m, ((ofText none (.fresh {} [⟨'(', ')'⟩]) skewedText).read (-1)).outcome =
        .error (.mismatch m) ∧ m.run = " \t".codePoints ∧ m.column = 3 ∧ m.depth = 1 := by
  have hmis : Misaligned (Layout.contentRuns {} (Layout.linesOf {} [⟨'(', ')'⟩] skewedText)) 2 := by
    decide +kernel
  have hfirst : ∀ j < 2,
      ¬ Misaligned (Layout.contentRuns {} (Layout.linesOf {} [⟨'(', ')'⟩] skewedText)) j := by
    decide +kernel
  refine ⟨by decide, hmis, hfirst, ?_⟩
  obtain ⟨before, line, after, stack, m, hlines, hcontent, hlength, hstack, hm, hloc, -⟩ :=
    (mismatch_iff_misaligned {} [⟨'(', ')'⟩] none skewedText (by decide)).2 2 hmis hfirst
  have hruns : Layout.contentRuns {} before ++ Layout.run {} line :: Layout.contentRuns {} after =
      ([[], ['\t']] : List (List CodePoint)) ++ ([[' ', '\t']] : List (List CodePoint)) := by
    rw [← Layout.contentRuns_cons_of_isContent hcontent, ← Layout.contentRuns_append, ← hlines]
    decide +kernel
  obtain ⟨hbefore, hline⟩ := List.append_inj hruns hlength
  have hrun : Layout.run {} line = " \t".codePoints := (List.cons.inj hline).1
  have hdepth : (([[], ['\t']] : List (List CodePoint)).foldlM Stack.advance? {}).map Stack.depth =
      some 1 := by decide
  rw [← hbefore, hstack, Option.map_some, Option.some.injEq] at hdepth
  exact ⟨m, hm, by rw [hloc.run_eq, hrun], by rw [hloc.column_eq, hrun]; rfl,
    by rw [hloc.depth_eq, hdepth]⟩

end Stream

end Offside
