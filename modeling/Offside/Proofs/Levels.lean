import Mathlib.Data.List.Infix
import Offside.Level

/-!
# The blocks that a run fits

A stack stands for a chain of indentations, from none at all to that of the innermost block, each
a proper prefix of the next.  Matching a run is a question about this chain: since every level has
at least one character, stripping levels off as long as they fit finds the longest member of the
chain that the run starts with.

So a line continues or closes blocks if its run is a member of the chain, opens one if its run
extends the last member, and is malformed otherwise.

## Main definitions

* `Stack.outer` — the members of the chain.
* `Stack.advance?` — the stack after a line, if the line is not malformed.
* `Stack.IsOpen` — a run is a member of the chain.

## Main results

* `Stack.le_matched_iff` — which levels are matched.
* `Stack.advance?_outer`, `Stack.advance?_append`, `Stack.advance?_eq_none_iff` — what a line does
  to the stack.
* `Stack.isOpen_advance?_iff` — the chain after a line.
-/

namespace Offside

theorem Resolution.change_eq_indent_iff {r : Resolution} :
    r.change = .indent ↔ r.matched = r.depth ∧ r.remainder ≠ [] := by
  rw [change]
  split_ifs <;> simp_all

theorem Resolution.change_eq_dedent_iff {r : Resolution} :
    r.change = .dedent ↔ r.matched ≠ r.depth ∧ r.remainder = [] := by
  rw [change]
  split_ifs <;> simp_all

namespace Stack

variable {s s' : Stack} {run : List CodePoint} {j k m : Nat}

/-! ### The chain of indentations -/

/-- The indentation of the block inside the outermost `m` levels. -/
def outer (s : Stack) (m : Nat) : List CodePoint := (s.levels.take m).flatMap Level.run

@[simp] theorem outer_zero (s : Stack) : s.outer 0 = [] := rfl

@[simp] theorem outer_depth (s : Stack) : s.outer s.depth = s.indentation := by
  rw [outer, depth, List.take_length, indentation]

theorem eq_empty_of_depth_eq_zero (h : s.depth = 0) : s = {} := by
  obtain ⟨levels⟩ := s
  rw [depth, List.length_eq_zero_iff] at h
  exact congrArg Stack.mk h

theorem outer_prefix (s : Stack) (h : j ≤ k) : s.outer j <+: s.outer k := by
  obtain ⟨rest, hrest⟩ := List.take_prefix_take_left (l := s.levels) h
  exact ⟨rest.flatMap Level.run, by rw [outer, outer, ← hrest, List.flatMap_append]⟩

theorem outer_prefix_indentation (s : Stack) (h : m ≤ s.depth) : s.outer m <+: s.indentation := by
  rw [← outer_depth]
  exact s.outer_prefix h

theorem length_outer_lt (hjk : j < k) (hk : k ≤ s.depth) :
    (s.outer j).length < (s.outer k).length := by
  have hj : j < s.levels.length := by
    rw [depth] at hk
    omega
  have hne : 0 < (s.levels[j]).run.length := List.length_pos_of_ne_nil s.levels[j].run_ne_nil
  have hsucc : s.outer (j + 1) = s.outer j ++ (s.levels[j]).run := by
    rw [outer, outer, List.take_succ_eq_append_getElem hj, List.flatMap_append]
    simp
  have hle : (s.outer (j + 1)).length ≤ (s.outer k).length := (s.outer_prefix hjk).length_le
  rw [hsucc, List.length_append] at hle
  omega

/-- A longer chain of levels spells a longer indentation, so the spelling tells the length. -/
theorem outer_prefix_iff (hj : j ≤ s.depth) : s.outer j <+: s.outer k ↔ j ≤ k := by
  refine ⟨fun h => ?_, s.outer_prefix⟩
  -- no level is empty, so otherwise the prefix would be the longer one
  by_contra hlt
  have := length_outer_lt (s := s) (Nat.lt_of_not_le hlt) hj
  have := h.length_le
  omega

/-! ### Matching -/

/-- How many levels a run starts with. -/
def matched (s : Stack) (run : List CodePoint) : Nat := (strip s.levels run).1

/-- What is left of a run after the levels it starts with. -/
def leftover (s : Stack) (run : List CodePoint) : List CodePoint := (strip s.levels run).2

theorem resolve_eq (s : Stack) (run : List CodePoint) :
    s.resolve run = ⟨s.matched run, s.leftover run, s.depth⟩ := rfl

theorem matched_le_depth (s : Stack) (run : List CodePoint) : s.matched run ≤ s.depth :=
  strip_fst_le s.levels run

theorem flatMap_take_append_strip (levels : List Level) (run : List CodePoint) :
    (levels.take (strip levels run).1).flatMap Level.run ++ (strip levels run).2 = run := by
  induction levels generalizing run with
  | nil => simp [strip]
  | cons l rest ih =>
    rw [strip]
    split
    · next h =>
      obtain ⟨tail, rfl⟩ := List.isPrefixOf_iff_prefix.1 h
      simp only [Level.length, List.drop_left, List.take_succ_cons, List.flatMap_cons,
        List.append_assoc, ih tail]
    · simp

/-- The next level of those that were not matched does not fit any more. -/
theorem not_flatMap_take_prefix (levels : List Level) (run : List CodePoint)
    (hk : (strip levels run).1 < k) (hle : k ≤ levels.length) :
    ¬ (levels.take k).flatMap Level.run <+: run := by
  induction levels generalizing run k with
  | nil =>
    simp only [List.length_nil] at hle
    omega
  | cons l rest ih =>
    obtain ⟨k, rfl⟩ : ∃ n, k = n + 1 := ⟨k - 1, by omega⟩
    rw [List.take_succ_cons, List.flatMap_cons]
    rw [strip] at hk
    split at hk
    · next h =>
      -- the first level fits, so it is one of the others that does not
      obtain ⟨tail, rfl⟩ := List.isPrefixOf_iff_prefix.1 h
      simp only [Level.length, List.drop_left] at hk
      rw [List.prefix_append_right_inj]
      exact ih tail (by omega) (by simpa using hle)
    · next h =>
      intro hpre
      exact h (List.isPrefixOf_iff_prefix.2 ((List.prefix_append _ _).trans hpre))

/-- A run is what its levels spell, and the rest. -/
theorem outer_matched_append_leftover (s : Stack) (run : List CodePoint) :
    s.outer (s.matched run) ++ s.leftover run = run :=
  flatMap_take_append_strip s.levels run

/-- **The matched levels are those that the run starts with.** -/
theorem le_matched_iff (hk : k ≤ s.depth) : k ≤ s.matched run ↔ s.outer k <+: run := by
  constructor
  · intro h
    rw [← s.outer_matched_append_leftover run]
    exact (s.outer_prefix h).trans (List.prefix_append _ _)
  · intro h
    by_contra hlt
    exact not_flatMap_take_prefix s.levels run (Nat.lt_of_not_le hlt) hk h

theorem matched_outer (hm : m ≤ s.depth) : s.matched (s.outer m) = m := by
  apply Nat.le_antisymm
  · rw [← outer_prefix_iff (s.matched_le_depth _)]
    exact (le_matched_iff (s.matched_le_depth _)).1 (Nat.le_refl _)
  · exact (le_matched_iff hm).2 (List.prefix_refl _)

theorem leftover_outer (hm : m ≤ s.depth) : s.leftover (s.outer m) = [] := by
  have h := s.outer_matched_append_leftover (s.outer m)
  rw [matched_outer hm] at h
  exact List.append_right_eq_self.1 h

theorem matched_append (s : Stack) (ext : List CodePoint) :
    s.matched (s.indentation ++ ext) = s.depth := by
  apply Nat.le_antisymm (s.matched_le_depth _)
  rw [le_matched_iff (Nat.le_refl _), outer_depth]
  exact List.prefix_append _ _

theorem leftover_append (s : Stack) (ext : List CodePoint) :
    s.leftover (s.indentation ++ ext) = ext := by
  have h := s.outer_matched_append_leftover (s.indentation ++ ext)
  rw [matched_append, outer_depth] at h
  exact List.append_cancel_left h

/-! ### A line -/

/-- The stack after a line with the leading whitespace `run`, unless the line is malformed. -/
def advance? (s : Stack) (run : List CodePoint) : Option Stack :=
  match (s.resolve run).change with
  | .same => some s
  | .indent => (Level.ofRun? (s.resolve run).remainder).map s.push
  | .dedent => some (s.close (s.resolve run).dedents.toNat)
  | .malformed => none

@[simp] theorem close_zero (s : Stack) : s.close 0 = s := by
  simp [close, depth]

theorem dedents_resolve (s : Stack) (run : List CodePoint) :
    (s.resolve run).dedents.toNat = s.depth - s.matched run := by
  rw [resolve_eq]
  simp only [Resolution.dedents]
  omega

/-- A run that a block has already continues that block and closes the blocks inside it. -/
theorem advance?_outer (hm : m ≤ s.depth) :
    s.advance? (s.outer m) = some (s.close (s.depth - m)) := by
  rw [advance?, dedents_resolve, matched_outer hm, resolve_eq, matched_outer hm, leftover_outer hm]
  by_cases h : m = s.depth
  · simp [Resolution.change, h]
  · have : (m : Int) ≠ s.depth := by omega
    simp [Resolution.change, this]

/-- A run that a stack spells closes the levels above that stack. -/
theorem advance?_of_prefix {t : Stack} (h : s.levels <+: t.levels) :
    t.advance? s.indentation = some s := by
  obtain ⟨above, habove⟩ := h
  have hle : s.depth ≤ t.depth := by simp [depth, ← habove]
  have hspelled : t.outer s.depth = s.indentation := by simp [outer, indentation, depth, ← habove]
  have hclosed : t.close (t.depth - s.depth) = s := by
    rw [close, Nat.sub_sub_self hle, ← habove, depth, List.take_left]
  rw [← hspelled, advance?_outer hle, hclosed]

/-- A run that extends the indentation of the innermost block opens a block. -/
theorem advance?_append (s : Stack) {ext : List CodePoint} (hext : ext ≠ []) :
    s.advance? (s.indentation ++ ext) = some (s.push ⟨ext, hext⟩) := by
  rw [advance?, resolve_eq, matched_append, leftover_append]
  simp [Resolution.change, hext, Level.ofRun?_of_ne]

/-- **A line is malformed** if its run neither extends the innermost block nor is that of any
block. -/
theorem advance?_eq_none_iff :
    s.advance? run = none ↔ ¬ s.indentation <+: run ∧ ∀ m ≤ s.depth, run ≠ s.outer m := by
  constructor
  · intro h
    refine ⟨?_, ?_⟩
    · rintro ⟨ext, rfl⟩
      by_cases hext : ext = []
      · rw [hext, List.append_nil, ← outer_depth, advance?_outer (Nat.le_refl _)] at h
        simp at h
      · rw [s.advance?_append hext] at h
        simp at h
    · rintro m hm rfl
      rw [advance?_outer hm] at h
      simp at h
  · rintro ⟨hext, hne⟩
    -- not all levels match, and they do not make up the whole run
    have hlt : (s.matched run : Int) ≠ s.depth := by
      intro heq
      have hle : s.depth ≤ s.matched run := by omega
      exact hext (outer_depth s ▸ (le_matched_iff (Nat.le_refl _)).1 hle)
    have hleft : s.leftover run ≠ [] := by
      intro hnil
      have h := s.outer_matched_append_leftover run
      rw [hnil, List.append_nil] at h
      exact hne _ (s.matched_le_depth run) h.symm
    simp [advance?, resolve_eq, Resolution.change, hlt, hleft]

/-- What a line does to the stack, if it is not malformed. -/
theorem advance?_cases (h : s.advance? run = some s') :
    (∃ m ≤ s.depth, run = s.outer m ∧ s' = s.close (s.depth - m)) ∨
      ∃ ext, ∃ hext : ext ≠ [], run = s.indentation ++ ext ∧ s' = s.push ⟨ext, hext⟩ := by
  by_cases hm : ∃ m ≤ s.depth, run = s.outer m
  · obtain ⟨m, hm, rfl⟩ := hm
    rw [advance?_outer hm, Option.some.injEq] at h
    exact Or.inl ⟨m, hm, rfl, h.symm⟩
  · by_cases hpre : s.indentation <+: run
    · obtain ⟨ext, rfl⟩ := hpre
      have hext : ext ≠ [] := by
        rintro rfl
        exact hm ⟨s.depth, Nat.le_refl _, by simp⟩
      rw [s.advance?_append hext, Option.some.injEq] at h
      exact Or.inr ⟨ext, hext, rfl, h.symm⟩
    · have hnone : s.advance? run = none :=
        advance?_eq_none_iff.2 ⟨hpre, fun m hle heq => hm ⟨m, hle, heq⟩⟩
      rw [hnone] at h
      simp at h

theorem outer_close (hm : m ≤ s.depth) (h : j ≤ m) :
    (s.close (s.depth - m)).outer j = s.outer j := by
  rw [close, outer, outer, List.take_take]
  congr 2
  omega

theorem outer_push (l : Level) (h : j ≤ s.depth) : (s.push l).outer j = s.outer j := by
  rw [push, outer, outer, List.take_append_of_le_length h]

theorem indentation_close (hm : m ≤ s.depth) :
    (s.close (s.depth - m)).indentation = s.outer m := by
  rw [← outer_depth, depth_close, Nat.sub_sub_self hm, outer_close hm (Nat.le_refl m)]

@[simp] theorem indentation_push (s : Stack) (l : Level) :
    (s.push l).indentation = s.indentation ++ l.run := by
  simp [push, indentation]

/-- **After a line the stack spells its run.** -/
theorem indentation_of_advance? (h : s.advance? run = some s') : s'.indentation = run := by
  rcases advance?_cases h with ⟨m, hm, rfl, rfl⟩ | ⟨ext, hext, rfl, rfl⟩
  · exact indentation_close hm
  · simp

/-! ### Open blocks -/

/-- A block with this indentation is open. -/
def IsOpen (s : Stack) (p : List CodePoint) : Prop := ∃ m ≤ s.depth, s.outer m = p

@[simp] theorem isOpen_empty_iff {p : List CodePoint} : IsOpen {} p ↔ p = [] := by
  simp [IsOpen, eq_comm]

/-- A block stays open for as long as the lines start with its indentation. -/
theorem isOpen_advance?_iff {p : List CodePoint} (h : s.advance? run = some s') :
    s'.IsOpen p ↔ p = run ∨ (s.IsOpen p ∧ p <+: run) := by
  rcases advance?_cases h with ⟨m, hm, rfl, rfl⟩ | ⟨ext, hext, rfl, rfl⟩
  · -- the run is that of an open block: the blocks around it stay, and it is one of them
    simp only [IsOpen, depth_close, Nat.sub_sub_self hm]
    constructor
    · rintro ⟨j, hj, rfl⟩
      rw [outer_close hm hj]
      exact Or.inr ⟨⟨j, hj.trans hm, rfl⟩, s.outer_prefix hj⟩
    · rintro (rfl | ⟨⟨j, hj, rfl⟩, hpre⟩)
      · exact ⟨m, Nat.le_refl m, outer_close hm (Nat.le_refl m)⟩
      · have hjm : j ≤ m := (outer_prefix_iff hj).1 hpre
        exact ⟨j, hjm, outer_close hm hjm⟩
  · -- the run opens a block: all others stay open, since it extends the innermost
    simp only [IsOpen, depth_push]
    constructor
    · rintro ⟨j, hj, rfl⟩
      rcases Nat.lt_or_ge s.depth j with hlt | hle
      · have hlast : j = (s.push ⟨ext, hext⟩).depth := by
          rw [depth_push]
          omega
        rw [hlast, outer_depth, indentation_push]
        exact Or.inl rfl
      · rw [outer_push _ hle]
        have hpre := (s.outer_prefix_indentation hle).trans (List.prefix_append _ ext)
        exact Or.inr ⟨⟨j, hle, rfl⟩, hpre⟩
    · rintro (rfl | ⟨⟨j, hj, rfl⟩, -⟩)
      · refine ⟨(s.push ⟨ext, hext⟩).depth, Nat.le_of_eq (depth_push _ _), ?_⟩
        rw [outer_depth, indentation_push]
      · exact ⟨j, hj.trans (Nat.le_succ _), outer_push _ hj⟩

end Stack

end Offside
