import Offside.Settings.Pairs
import Mathlib.Data.List.Basic

/-!
# Reading pairs that were written

Pairs are written one after the other with commas between them, and they are read two characters at
a time, with a comma skipped after each two.  Where every piece has two characters, the reading is
at the start of a piece whenever it comes to a comma that was put in, so it does not matter that a
comma may also belong to a pair.

A piece of another length moves the reading out of step, and then a comma that was put in becomes
part of a pair.  Among pieces without commas it can only become a closing character: that of the
last character of a piece of odd length.

## Main definitions

* `Pairs.closed` — a piece with the comma that completes it.

## Main results

* `Pairs.split_join` — pairs are read as they were written.
* `Pairs.split_join_concat` — how pieces of any length are read.
* `Pairs.exists_length_ne_two_join_iff` — when a character is left over.
-/

namespace Offside

namespace Pairs

variable {piece rest : List CodePoint} {pieces values : List (List CodePoint)}

@[simp] theorem join_nil : join [] = [] := rfl

@[simp] theorem join_singleton (piece : List CodePoint) : join [piece] = piece := by
  simp [join, List.intercalate]

theorem join_cons (piece : List CodePoint) (h : pieces ≠ []) :
    join (piece :: pieces) = piece ++ comma :: join pieces := by
  obtain ⟨second, others, rfl⟩ := List.exists_cons_of_ne_nil h
  simp [join, List.intercalate]

/-- Pairs are read as they were written, whatever comes after them. -/
theorem split_join_append (h : ∀ piece ∈ pieces, piece.length = 2)
    (values : List (List CodePoint)) :
    split (join (pieces ++ values)) = pieces ++ split (join values) := by
  induction pieces with
  | nil => rfl
  | cons piece pieces ih =>
    obtain ⟨a, b, rfl⟩ := List.length_eq_two.1 (h piece (List.mem_cons_self ..))
    have hrest := ih fun piece hpiece => h piece (List.mem_cons_of_mem _ hpiece)
    rw [List.cons_append, List.cons_append, ← hrest]
    by_cases hnil : pieces ++ values = []
    · -- the last pair has no comma after it
      rw [hnil]
      rfl
    · rw [join_cons _ hnil]
      exact split_pair_comma a b _

/-- **Pairs are read as they were written**, even if there are commas among their characters. -/
theorem split_join (h : ∀ piece ∈ pieces, piece.length = 2) : split (join pieces) = pieces := by
  simpa using split_join_append h []

/-- A pair that no comma follows. -/
theorem split_pair (a b : CodePoint) (h : rest.head? ≠ some comma) :
    split (a :: b :: rest) = [a, b] :: split rest := by
  cases rest with
  | nil => rfl
  | cons c rest =>
    have hc : c ≠ comma := by simpa using h
    rw [split]
    simpa using hc

theorem head?_ne_comma (h : comma ∉ piece) : piece.head? ≠ some comma :=
  fun hhead => h (List.mem_of_head? hhead)

/-- A piece, with the comma after it if its last character would be left over otherwise. -/
def closed (piece : List CodePoint) : List CodePoint :=
  if piece.length % 2 = 1 then piece ++ [comma] else piece

theorem closed_cons_cons (a b : CodePoint) (piece : List CodePoint) :
    closed (a :: b :: piece) = a :: b :: closed piece := by
  simp only [closed, List.length_cons, Nat.add_assoc, Nat.add_mod_right]
  split <;> rfl

theorem head?_closed (piece : List CodePoint) : (closed piece).head? = piece.head? := by
  cases piece with
  | nil => rfl
  | cons a piece =>
    rw [closed]
    split <;> rfl

/-- A piece of odd length takes the comma after it as a closing character. -/
theorem split_append_comma (hpiece : piece ≠ []) (hcomma : comma ∉ piece)
    (hrest : rest.head? ≠ some comma) :
    split (piece ++ comma :: rest) = split (closed piece) ++ split rest := by
  fun_induction split piece with
  | case1 => exact absurd rfl hpiece
  | case2 a => exact split_pair a comma hrest
  | case3 a b piece => simp at hcomma
  | case4 a b piece _ ih =>
    have hcomma' : comma ∉ piece := fun h => hcomma (by simp [h])
    rw [closed_cons_cons]
    by_cases hnil : piece = []
    · subst hnil
      exact split_pair_comma a b rest
    · have hhead := head?_ne_comma hcomma'
      have hclosed : (closed piece).head? ≠ some comma := by rwa [head?_closed]
      have happend : (piece ++ comma :: rest).head? ≠ some comma := by
        rwa [List.head?_append_of_ne_nil _ hnil]
      calc split (a :: b :: (piece ++ comma :: rest))
          = [a, b] :: split (piece ++ comma :: rest) := split_pair a b happend
        _ = [a, b] :: (split (closed piece) ++ split rest) := by rw [ih hnil hcomma']
        _ = split (a :: b :: closed piece) ++ split rest := by
          rw [split_pair a b hclosed, List.cons_append]

/-- **Pieces without commas are read one by one**, each but the last with the comma after it if it
needs one. -/
theorem split_join_concat (hvalues : ∀ value ∈ values, value ≠ [] ∧ comma ∉ value)
    (hpiece : comma ∉ piece) :
    split (join (values ++ [piece])) =
      (values.flatMap fun value => split (closed value)) ++ split piece := by
  induction values with
  | nil => simp
  | cons value values ih =>
    obtain ⟨hne, hcomma⟩ := hvalues value (List.mem_cons_self ..)
    have hvalues' := fun v hv => hvalues v (List.mem_cons_of_mem value hv)
    have hhead : (join (values ++ [piece])).head? ≠ some comma := by
      cases values with
      | nil => simpa using head?_ne_comma hpiece
      | cons next values =>
        obtain ⟨hnext, hcomma'⟩ := hvalues' next (List.mem_cons_self ..)
        rw [List.cons_append, join_cons next (by simp), List.head?_append_of_ne_nil _ hnext]
        exact head?_ne_comma hcomma'
    rw [List.cons_append, join_cons value (by simp), split_append_comma hne hcomma hhead,
      ih hvalues', List.flatMap_cons, List.append_assoc]

/-- A character of a piece without commas is left over if its length is odd. -/
theorem exists_length_ne_two_iff (hcomma : comma ∉ piece) :
    (∃ p ∈ split piece, p.length ≠ 2) ↔ piece.length % 2 = 1 := by
  fun_induction split piece with
  | case1 => simp
  | case2 a => simp
  | case3 a b piece => simp at hcomma
  | case4 a b piece _ ih =>
    have hcomma' : comma ∉ piece := fun h => hcomma (by simp [h])
    simpa [Nat.add_assoc] using ih hcomma'

/-- Nothing is left over of a piece that has the comma it needs. -/
theorem length_mem_split_closed (hcomma : comma ∉ piece) :
    ∀ p ∈ split (closed piece), p.length = 2 := by
  fun_induction split piece with
  | case1 => simp [closed]
  | case2 a => simp [closed, split]
  | case3 a b piece => simp at hcomma
  | case4 a b piece _ ih =>
    have hcomma' : comma ∉ piece := fun h => hcomma (by simp [h])
    have hclosed : (closed piece).head? ≠ some comma := by
      rw [head?_closed]
      exact head?_ne_comma hcomma'
    rw [closed_cons_cons, split_pair a b hclosed]
    simpa using ih hcomma'

/-- **Among pieces without commas only the last can be refused**, and it is if its length is
odd. -/
theorem exists_length_ne_two_join_iff (hvalues : ∀ value ∈ values, value ≠ [] ∧ comma ∉ value)
    (hpiece : comma ∉ piece) :
    (∃ p ∈ split (join (values ++ [piece])), p.length ≠ 2) ↔ piece.length % 2 = 1 := by
  rw [← exists_length_ne_two_iff hpiece, split_join_concat hvalues hpiece]
  constructor
  · rintro ⟨p, hp, hlength⟩
    rcases List.mem_append.1 hp with hp | hp
    · obtain ⟨value, hvalue, hp⟩ := List.mem_flatMap.1 hp
      exact absurd (length_mem_split_closed (hvalues value hvalue).2 p hp) hlength
    · exact ⟨p, hp, hlength⟩
  · rintro ⟨p, hp, hlength⟩
    exact ⟨p, List.mem_append_right _ hp, hlength⟩

end Pairs

end Offside
