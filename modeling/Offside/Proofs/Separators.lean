import Offside.Proofs.Overriding

/-!
# Separators between pairs

A comma may stand between two escape pairs, and it may be one of the two characters of a pair.
Which of the two it is depends on its place alone: the first two characters of a text are a pair
whatever they are, and a comma directly behind a pair is a separator, even where the text could also
be read as pairs without it.  So a text is a sequence of pairs in one way at most.

Reading a text takes it apart into these pairs, with a single character at the end if the last pair
is not complete.  Whatever it was taken apart into can be written again with commas, and is read as
the same: only the last piece may be incomplete, and no comma comes behind that one.

## Main definitions

* `Pairs.Sequence` — a text that is a sequence of pairs.

## Main results

* `Pairs.sequence_iff` — a text is the sequence of the pairs that are read from it.
* `Pairs.split_join_split` — what was read is written and read again.
* `Settings.accepts_sequences` — **the texts that are accepted are the sequences of pairs**.
-/

namespace Offside

namespace Pairs

/-- The two characters of a pair as a text. -/
def written (pair : CodePoint × CodePoint) : List CodePoint := [pair.1, pair.2]

/-- A text is a sequence of pairs.  A comma directly behind a pair is a separator; where there is
none the next pair follows at once. -/
inductive Sequence : List (CodePoint × CodePoint) → List CodePoint → Prop where
  /-- No pair is left. -/
  | nil : Sequence [] []
  /-- A pair with a separator behind it. -/
  | separated {pairs : List (CodePoint × CodePoint)} {rest : List CodePoint}
      (opening closing : CodePoint) (hrest : Sequence pairs rest) :
      Sequence ((opening, closing) :: pairs) (opening :: closing :: comma :: rest)
  /-- A pair without a separator. -/
  | adjacent {pairs : List (CodePoint × CodePoint)} {rest : List CodePoint}
      (opening closing : CodePoint) (hcomma : rest.head? ≠ some comma)
      (hrest : Sequence pairs rest) :
      Sequence ((opening, closing) :: pairs) (opening :: closing :: rest)

variable {text piece : List CodePoint} {pairs : List (CodePoint × CodePoint)}

/-! ### Sequences of pairs -/

theorem Sequence.split_eq (h : Sequence pairs text) : split text = pairs.map written := by
  induction h with
  | nil => rfl
  | separated opening closing _ ih =>
    rw [split_pair_comma, ih]
    rfl
  | adjacent opening closing hcomma _ ih =>
    rw [split_pair opening closing hcomma, ih]
    rfl

/-- A text without an incomplete piece is the sequence of its pairs. -/
theorem sequence_parse (h : ∀ piece ∈ split text, piece.length = 2) :
    Sequence (parse text) text := by
  fun_induction split text with
  | case1 => exact .nil
  | case2 a => simp at h
  | case3 a b rest ih =>
    have hrest : Sequence (parse rest) rest := ih fun piece hpiece =>
      h piece (List.mem_cons_of_mem _ hpiece)
    have hparse : parse (a :: b :: comma :: rest) = (a, b) :: parse rest := by
      rw [parse, split_pair_comma]
      rfl
    rw [hparse]
    exact .separated a b hrest
  | case4 a b rest hcomma ih =>
    have hrest : Sequence (parse rest) rest := ih fun piece hpiece =>
      h piece (List.mem_cons_of_mem _ hpiece)
    have hhead : rest.head? ≠ some comma := by
      intro hhead
      obtain ⟨more, rfl⟩ := List.head?_eq_some_iff.1 hhead
      exact hcomma more rfl
    have hparse : parse (a :: b :: rest) = (a, b) :: parse rest := by
      rw [parse, split_pair a b hhead]
      rfl
    rw [hparse]
    exact .adjacent a b hhead hrest

theorem length_of_mem_map_written (h : piece ∈ pairs.map written) : piece.length = 2 := by
  obtain ⟨pair, -, rfl⟩ := List.mem_map.1 h
  rfl

theorem parse_of_split_eq (h : split text = pairs.map written) : parse text = pairs := by
  have hpair : (fun pair => pair? (written pair)) = some := rfl
  rw [parse, h, List.filterMap_map]
  show pairs.filterMap (fun pair => pair? (written pair)) = pairs
  rw [hpair, List.filterMap_some]

/-- **A text is the sequence of the pairs that are read from it**, and of no others. -/
theorem sequence_iff : Sequence pairs text ↔ split text = pairs.map written := by
  constructor
  · exact Sequence.split_eq
  · intro h
    have htwo : ∀ piece ∈ split text, piece.length = 2 := by
      rw [h]
      exact fun piece => length_of_mem_map_written
    rw [← parse_of_split_eq h]
    exact sequence_parse htwo

/-! ### Any text at all -/

/-- Only the last piece may be incomplete. -/
theorem length_of_mem_dropLast_split (h : piece ∈ (split text).dropLast) : piece.length = 2 := by
  have hcons {a b : CodePoint} {rest : List CodePoint}
      (ih : piece ∈ (split rest).dropLast → piece.length = 2)
      (h : piece ∈ ([a, b] :: split rest).dropLast) : piece.length = 2 := by
    by_cases hnil : split rest = []
    · simp [hnil] at h
    · rw [List.dropLast_cons_of_ne_nil hnil] at h
      rcases List.mem_cons.1 h with rfl | h
      · rfl
      · exact ih h
  fun_induction split text with
  | case1 => simp at h
  | case2 a => simp at h
  | case3 a b rest ih => exact hcons ih h
  | case4 a b rest _ ih => exact hcons ih h

/-- Each piece but the last takes two characters of the text. -/
theorem two_mul_length_split_le (text : List CodePoint) :
    2 * (split text).length ≤ text.length + 1 := by
  fun_induction split text with
  | case1 => simp
  | case2 a => simp
  | case3 a b rest ih =>
    simp only [List.length_cons]
    omega
  | case4 a b rest _ ih =>
    simp only [List.length_cons]
    omega

/-- **What was read is written and read again**, incomplete or not. -/
theorem split_join_split (text : List CodePoint) : split (join (split text)) = split text := by
  rcases List.eq_nil_or_concat (split text) with hnil | ⟨pieces, last, hsplit⟩
  · rw [hnil]
    rfl
  · have htwo : ∀ piece ∈ pieces, piece.length = 2 := by
      intro piece hpiece
      have hmem : piece ∈ (split text).dropLast := by
        rw [hsplit, List.concat_eq_append, List.dropLast_concat]
        exact hpiece
      exact length_of_mem_dropLast_split hmem
    have hlast : last.length = 1 ∨ last.length = 2 := by
      have hmem : last ∈ split text := by
        rw [hsplit]
        simp
      exact length_mem_split hmem
    have hread : split last = [last] := by
      rcases hlast with hone | htwo
      · obtain ⟨a, rfl⟩ := List.length_eq_one_iff.1 hone
        rfl
      · obtain ⟨a, b, rfl⟩ := List.length_eq_two.1 htwo
        rfl
    rw [hsplit, List.concat_eq_append, split_join_append htwo, join_singleton, hread]

end Pairs

namespace Settings

/-- A text is accepted if no piece of it is incomplete. -/
theorem exists_checkPairs_iff (text : List CodePoint) :
    (∃ cs, checkPairs (.text text) = .ok cs) ↔
      ∀ piece ∈ Pairs.split text, piece.length = 2 := by
  constructor
  · rintro ⟨cs, hcs⟩
    rw [Value.text.inj (text_of_checkPairs hcs)]
    exact cs.2
  · intro h
    exact ⟨_, checkPairs_text h⟩

/-- **Splitting undoes joining, and the texts that are accepted are the sequences of pairs.**  A
list of pairs is read as it was written, whatever commas are among their characters.  Reading any
text comes to an end with pieces of two characters, of which the last may have one only, and they
are read again as they are written.  A text is accepted for the escape pairs if and only if it is a
sequence of pairs, and then it is the sequence of the pairs that are put in force. -/
theorem accepts_sequences :
    (∀ pieces : List (List CodePoint), (∀ piece ∈ pieces, piece.length = 2) →
      Pairs.split (Pairs.join pieces) = pieces) ∧
    (∀ text : List CodePoint,
      2 * (Pairs.split text).length ≤ text.length + 1 ∧
      (∀ piece ∈ (Pairs.split text).dropLast, piece.length = 2) ∧
      (∀ piece ∈ (Pairs.split text).getLast?, piece.length = 1 ∨ piece.length = 2) ∧
      Pairs.split (Pairs.join (Pairs.split text)) = Pairs.split text) ∧
    ∀ text : List CodePoint,
      ((∃ cs, checkPairs (.text text) = .ok cs) ↔ ∃ pairs, Pairs.Sequence pairs text) ∧
      ∀ cs pairs, checkPairs (.text text) = .ok cs →
        (Pairs.Sequence pairs text ↔ Pairs.parse cs.1 = pairs) := by
  refine ⟨fun pieces h => Pairs.split_join h, fun text => ?_, fun text => ?_⟩
  · have hmem : ∀ piece ∈ (Pairs.split text).getLast?, piece ∈ Pairs.split text :=
      fun piece hpiece => List.mem_of_getLast? hpiece
    exact ⟨Pairs.two_mul_length_split_le text, fun piece => Pairs.length_of_mem_dropLast_split,
      fun piece hpiece => Pairs.length_mem_split (hmem piece hpiece), Pairs.split_join_split text⟩
  · -- what is accepted has complete pieces, and each of them was written as a pair
    have haccepted := exists_checkPairs_iff text
    refine ⟨?_, fun cs pairs hcs => ?_⟩
    · rw [haccepted]
      constructor
      · intro h
        exact ⟨_, Pairs.sequence_parse h⟩
      · rintro ⟨pairs, hpairs⟩
        rw [hpairs.split_eq]
        exact fun piece => Pairs.length_of_mem_map_written
    · have htext : cs.1 = text := (Value.text.inj (text_of_checkPairs hcs)).symm
      rw [htext]
      constructor
      · intro hpairs
        exact Pairs.parse_of_split_eq hpairs.split_eq
      · rintro rfl
        exact Pairs.sequence_parse (haccepted.1 ⟨cs, hcs⟩)

/-- Pairs with commas in them. -/
def commaPairs : List (List CodePoint) := [[',', 'x'], ['(', ','], [',', ',']]

/-- Commas at every place: two pairs of them are read as they were written, a separator at the end
leaves nothing over, and a comma behind a pair is not taken for an opening character. -/
theorem accepts_sequences_commas :
    (∀ piece ∈ commaPairs, piece.length = 2) ∧
      Pairs.split (Pairs.join commaPairs) = commaPairs ∧
      (∃ cs, checkPairs (.text "(),,x[],") = .ok cs) ∧
      ¬ ∃ cs, checkPairs (.text "(),x") = .ok cs := by
  obtain ⟨hjoin, -, haccepted⟩ := accepts_sequences
  have htwo : ∀ piece ∈ commaPairs, piece.length = 2 := by decide
  refine ⟨htwo, hjoin _ htwo, ?_, ?_⟩
  · apply (haccepted "(),,x[],").1.2
    exact ⟨_, .separated '(' ')' (.adjacent ',' 'x' (by decide) (.separated '[' ']' .nil))⟩
  · intro h
    obtain ⟨pairs, hpairs⟩ := (haccepted "(),x").1.1 h
    -- the comma belongs to the first pair as its separator, and one character is left over
    have hsplit := hpairs.split_eq
    have hlast : [.char 'x'] ∈ pairs.map Pairs.written := hsplit ▸ by decide
    exact absurd (Pairs.length_of_mem_map_written hlast) (by decide)

end Settings

end Offside
