import Mathlib.Order.Bounds.Defs
import Offside.Proofs.Levels

/-!
# What a resolution says

Resolving a run strips levels off its front, one at a time, and stops at the first that does not
fit.  What comes out is a question about the chain of indentations only: which of its members is
the longest that the run starts with, and what is left of the run after it.  This holds also
where one level starts with another, so that a shorter level could have been put in the place of a
longer one, because every level is compared at its own place in the chain.

The four verdicts are then four ways for a run to lie against the chain, and after the levels have
been opened or closed accordingly the chain ends in the run.

## Main definitions

* `Stack.popMany` — closing levels one by one, as long as there are any.
* `Stack.Resolves` — what a resolution has to say about a run.

## Main results

* `Stack.popMany_eq`, `Stack.popMany_of_lt` — when there are enough levels to close.
* `Stack.change_resolve_eq_same_iff`, `Stack.change_resolve_eq_indent_iff`,
  `Stack.change_resolve_eq_dedent_iff`, `Stack.change_resolve_eq_malformed_iff` — the verdicts.
* `Stack.resolves_resolve` — resolving a run says all that.
-/

namespace Offside

theorem Resolution.change_eq_same_iff {r : Resolution} :
    r.change = .same ↔ r.matched = r.depth ∧ r.remainder = [] := by
  rw [change]
  split_ifs <;> simp_all

namespace Stack

variable {s : Stack} {run : List CodePoint} {j k m n : Nat}

/-! ### Closing levels one by one -/

/-- Closes the innermost level `n` times. -/
def popMany (s : Stack) : Nat → Except StackError Stack
  | 0 => .ok s
  | n + 1 => match s.pop with
    | .ok (_, t) => t.popMany n
    | .error e => .error e

theorem pop_of_depth_pos (h : 0 < s.depth) : ∃ l, s.pop = .ok (l, s.close 1) := by
  obtain ⟨levels⟩ := s
  have hne : levels ≠ [] := List.length_pos_iff.1 h
  refine ⟨levels.getLast hne, ?_⟩
  simp only [pop, List.getLast?_eq_some_getLast hne, close, depth, List.dropLast_eq_take]

theorem pop_of_depth_eq_zero (h : s.depth = 0) : s.pop = .error .nothingOpen := by
  rw [eq_empty_of_depth_eq_zero h]
  rfl

theorem close_close (s : Stack) (m n : Nat) : (s.close m).close n = s.close (m + n) := by
  simp only [close, depth, List.length_take, List.take_take]
  congr 2
  omega

/-- Closing levels one by one is closing them at once. -/
theorem popMany_eq (h : n ≤ s.depth) : s.popMany n = .ok (s.close n) := by
  induction n generalizing s with
  | zero => rw [popMany, close_zero]
  | succ n ih =>
    obtain ⟨l, hpop⟩ := pop_of_depth_pos (s := s) (by omega)
    have hrest : n ≤ (s.close 1).depth := by
      rw [depth_close]
      omega
    rw [popMany, hpop, Nat.add_comm n 1, ← close_close]
    exact ih hrest

/-- One level too many is refused. -/
theorem popMany_of_lt (h : s.depth < n) : s.popMany n = .error .nothingOpen := by
  induction n generalizing s with
  | zero => omega
  | succ n ih =>
    rw [popMany]
    rcases Nat.eq_zero_or_pos s.depth with hzero | hpos
    · rw [pop_of_depth_eq_zero hzero]
    · obtain ⟨l, hpop⟩ := pop_of_depth_pos hpos
      rw [hpop]
      apply ih
      rw [depth_close]
      omega

/-! ### The verdicts -/

/-- The levels spell their number: no two members of the chain are the same. -/
theorem eq_of_outer_eq (hj : j ≤ s.depth) (hk : k ≤ s.depth) (h : s.outer j = s.outer k) :
    j = k := by
  rw [← matched_outer hj, ← matched_outer hk, h]

theorem isGreatest_matched (s : Stack) (run : List CodePoint) :
    IsGreatest {m | m ≤ s.depth ∧ s.outer m <+: run} (s.matched run) := by
  refine ⟨⟨s.matched_le_depth run, ?_⟩, fun k hk => (le_matched_iff hk.1).2 hk.2⟩
  exact (le_matched_iff (s.matched_le_depth run)).1 (Nat.le_refl _)

/-- All levels are matched if the run starts with the whole indentation. -/
theorem matched_eq_depth_iff : s.matched run = s.depth ↔ s.indentation <+: run := by
  rw [← outer_depth, ← le_matched_iff (Nat.le_refl _)]
  have := s.matched_le_depth run
  omega

/-- Nothing is left over if the run is a member of the chain. -/
theorem leftover_eq_nil_iff : s.leftover run = [] ↔ run = s.outer (s.matched run) := by
  have h := s.outer_matched_append_leftover run
  constructor
  · intro hnil
    rwa [hnil, List.append_nil, eq_comm] at h
  · intro hrun
    exact List.append_right_eq_self.1 (h.trans hrun)

/-- A line continues the innermost block if its run is the whole indentation. -/
theorem change_resolve_eq_same_iff : (s.resolve run).change = .same ↔ run = s.indentation := by
  rw [Resolution.change_eq_same_iff, resolve_eq]
  simp only [Int.natCast_inj, leftover_eq_nil_iff]
  constructor
  · rintro ⟨hall, hrun⟩
    rwa [hall, outer_depth] at hrun
  · rintro rfl
    rw [matched_eq_depth_iff.2 (List.prefix_refl _), outer_depth]
    exact ⟨rfl, rfl⟩

/-- A line opens a block if its run goes on after the whole indentation. -/
theorem change_resolve_eq_indent_iff :
    (s.resolve run).change = .indent ↔ s.indentation <+: run ∧ run ≠ s.indentation := by
  rw [Resolution.change_eq_indent_iff, resolve_eq]
  simp only [Int.natCast_inj, matched_eq_depth_iff, ne_eq, leftover_eq_nil_iff]
  constructor
  · rintro ⟨hpre, hne⟩
    rw [matched_eq_depth_iff.2 hpre, outer_depth] at hne
    exact ⟨hpre, hne⟩
  · rintro ⟨hpre, hne⟩
    rw [matched_eq_depth_iff.2 hpre, outer_depth]
    exact ⟨hpre, hne⟩

/-- A line closes blocks if its run is that of a block further out. -/
theorem change_resolve_eq_dedent_iff :
    (s.resolve run).change = .dedent ↔ ∃ m < s.depth, run = s.outer m := by
  rw [Resolution.change_eq_dedent_iff, resolve_eq]
  simp only [ne_eq, Int.natCast_inj, leftover_eq_nil_iff]
  constructor
  · rintro ⟨hne, hrun⟩
    exact ⟨s.matched run, Nat.lt_of_le_of_ne (s.matched_le_depth run) hne, hrun⟩
  · rintro ⟨m, hm, rfl⟩
    rw [matched_outer hm.le]
    exact ⟨hm.ne, rfl⟩

/-- A line fits nowhere if none of this is so. -/
theorem change_resolve_eq_malformed_iff :
    (s.resolve run).change = .malformed ↔
      run ≠ s.indentation ∧ ¬ (s.indentation <+: run ∧ run ≠ s.indentation) ∧
        ¬ ∃ m < s.depth, run = s.outer m := by
  rw [← change_resolve_eq_indent_iff, ← change_resolve_eq_dedent_iff, ne_eq,
    ← change_resolve_eq_same_iff]
  cases (s.resolve run).change <;> simp

/-! ### After the line -/

theorem dedents_resolve_outer (hm : m ≤ s.depth) :
    (s.resolve (s.outer m)).dedents = s.depth - m := by
  rw [resolve_eq, Resolution.dedents, matched_outer hm]

/-- The level that is left over completes the indentation. -/
theorem pushRun_leftover (h : (s.resolve run).change = .indent) :
    ∃ l t, s.pushRun (s.leftover run) = .ok (l, t) ∧ t.indentation = run := by
  obtain ⟨⟨ext, rfl⟩, hne⟩ := change_resolve_eq_indent_iff.1 h
  have hext : ext ≠ [] := by
    rintro rfl
    exact hne (List.append_nil _)
  refine ⟨⟨ext, hext⟩, s.push ⟨ext, hext⟩, ?_, indentation_push _ _⟩
  rw [leftover_append, pushRun, Level.ofRun?_of_ne hext]

/-- There are enough levels to close, and those that stay are those of the run. -/
theorem popMany_dedents (h : (s.resolve run).change = .dedent) :
    ∃ t, s.popMany (s.resolve run).dedents.toNat = .ok t ∧ t.indentation = run := by
  obtain ⟨m, hm, rfl⟩ := change_resolve_eq_dedent_iff.1 h
  rw [dedents_resolve, matched_outer hm.le]
  exact ⟨_, popMany_eq (Nat.sub_le _ _), indentation_close hm.le⟩

/-- What a resolution has to say about a run, in terms of the indentations of the open blocks. -/
structure Resolves (s : Stack) (run : List CodePoint) (r : Resolution) : Prop where
  depth : r.depth = s.depth
  /-- As many levels are matched as possible, and the remainder completes them. -/
  longest : ∃ m : Nat, r.matched = m ∧ IsGreatest {k | k ≤ s.depth ∧ s.outer k <+: run} m ∧
    s.outer m ++ r.remainder = run
  same : r.change = .same ↔ run = s.outer s.depth
  indent : r.change = .indent ↔ s.outer s.depth <+: run ∧ run ≠ s.outer s.depth
  dedent : r.change = .dedent ↔ ∃ m < s.depth, run = s.outer m
  malformed : r.change = .malformed ↔
    run ≠ s.outer s.depth ∧ ¬ (s.outer s.depth <+: run ∧ run ≠ s.outer s.depth) ∧
      ¬ ∃ m < s.depth, run = s.outer m
  /-- No two blocks have the same indentation. -/
  unique : ∀ j < s.depth, ∀ k < s.depth, run = s.outer j → run = s.outer k → j = k
  /-- The levels to be closed are those inside the block of the run. -/
  dedents : ∀ m < s.depth, run = s.outer m → r.dedents = s.depth - m
  /-- The remainder can be opened, and then the block of the run is the innermost. -/
  pushed : r.change = .indent →
    ∃ l t, s.pushRun r.remainder = .ok (l, t) ∧ (t.resolve run).change = .same
  /-- There are enough levels to close, and then the block of the run is the innermost. -/
  popped : r.change = .dedent →
    ∃ t, s.popMany r.dedents.toNat = .ok t ∧ (t.resolve run).change = .same

/-- **Resolving a run finds its place in the chain of indentations**, and opening or closing levels
as it says makes that place the end of the chain. -/
theorem resolves_resolve (s : Stack) (run : List CodePoint) : s.Resolves run (s.resolve run) where
  depth := depth_resolve s run
  longest := ⟨s.matched run, rfl, s.isGreatest_matched run, s.outer_matched_append_leftover run⟩
  same := by rw [change_resolve_eq_same_iff, outer_depth]
  indent := by rw [change_resolve_eq_indent_iff, outer_depth]
  dedent := change_resolve_eq_dedent_iff
  malformed := by rw [change_resolve_eq_malformed_iff, outer_depth]
  unique j hj k hk hrunj hrunk := eq_of_outer_eq hj.le hk.le (hrunj.symm.trans hrunk)
  dedents m hm hrun := by rw [hrun, dedents_resolve_outer hm.le]
  pushed h := by
    obtain ⟨l, t, hpush, hspelled⟩ := pushRun_leftover h
    exact ⟨l, t, hpush, change_resolve_eq_same_iff.2 hspelled.symm⟩
  popped h := by
    obtain ⟨t, hpop, hspelled⟩ := popMany_dedents h
    exact ⟨t, hpop, change_resolve_eq_same_iff.2 hspelled.symm⟩

/-- A level that starts with the one around it is no way to skip that one. -/
example : resolve ⟨[⟨[' '], by simp⟩, ⟨[' ', ' '], by simp⟩]⟩ [' ', ' '] = ⟨1, [' '], 2⟩ := rfl

end Stack

end Offside
