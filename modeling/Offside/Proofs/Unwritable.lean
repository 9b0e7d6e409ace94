import Offside.Proofs.Conversion
import Offside.Proofs.Remarking

/-!
# Marks that cannot be written

A surrogate may be a mark like any other code point, but no file can hold it.  What is read from a
file is characters throughout, and what a stream hands out is characters of its source and marks,
so nothing but a mark of the settings is ever in the way of writing the output.

## Main definitions

* `Stream.Utters` — whatever a stream hands out is of a kind.
* `Settings.StopsAt` — the output stops at a mark that cannot be written.

## Main results

* `Stream.forall_mem_drain` — what holds of characters and marks holds of all that is handed out.
* `Stream.mark_of_mem_drain` — what cannot be written is a mark.
-/

namespace Offside

namespace Stream

open Engine CharSource

/-! ### What a stream hands out -/

section Utters

variable {σ : Type} [CharSource σ] {P : Token → Prop} {s : Stream σ}

/-- Whatever an open stream hands out is of a kind: what is queued, the characters that the source
answers with, and the marks. -/
structure Utters (P : Token → Prop) (s : Stream σ) : Prop where
  opened : s.closed = false
  pending : s.engine.Pending
  due : ∀ t ∈ s.engine.due, P t
  characters : ∀ n, ∀ c ∈ charsOf (answers s.source n), P (.content c)
  marks : ∀ before after, ∀ t ∈ s.engine.layout.marks before after, P t

theorem Utters.handOut (h : Utters P s) (hne : s.engine.queue ≠ []) :
    (∀ t ∈ tokensOf s.handOut.outcome, P t) ∧ Utters P s.handOut.next := by
  obtain ⟨n, hdue⟩ := due_handOut h.pending hne
  -- the marks of the end are those of a line that closes one block
  have hlast : P s.engine.dedentToken := by
    refine h.marks 1 0 _ ?_
    simp [Layout.marks, dedentToken]
  have hall : ∀ t ∈ tokensOf s.handOut.outcome ++ s.handOut.next.engine.due, P t := by
    rw [hdue]
    intro t ht
    rcases List.mem_append.1 ht with ht | ht
    · exact h.due t ht
    · rw [List.eq_of_mem_replicate ht]
      exact hlast
  refine ⟨fun t ht => hall t (List.mem_append_left _ ht), h.opened, pending_handOut h.pending hne,
    fun t ht => hall t (List.mem_append_right _ ht), h.characters, ?_⟩
  rw [layout_handOut]
  exact h.marks

/-- One request keeps to the kind. -/
theorem Utters.next (h : Utters P s) :
    (∀ t ∈ tokensOf s.next.outcome, P t) ∧ Utters P s.next.next := by
  rcases next_hears h.opened with ⟨hne, hs⟩ | ⟨hq, k, error, e, told, hhears, hs⟩
  · rw [hs]
    exact h.handOut hne
  · have hheard : Utters P (s.fed k e) :=
      { opened := h.opened
        pending := hhears.pending [] hq
        due := hhears.forall_due (h.characters k) h.marks h.due
        characters := by
          intro n c hc
          refine h.characters (k + n) c ?_
          rw [answers_add, charsOf_append]
          exact List.mem_append_right _ hc
        marks := by
          have hlayout : (s.fed k e).engine.layout = s.engine.layout := hhears.layout_eq
          rw [hlayout]
          exact h.marks }
    rw [hs]
    cases error with
    | some x => exact ⟨by simp [reply, Reply.after], hheard⟩
    | none => exact hheard.handOut hhears.queue_ne_nil

/-- **What holds of characters and marks holds of all that is handed out.** -/
theorem forall_mem_drain (h : Utters P s) : ∀ t ∈ s.drain.1, P t := by
  fun_induction drain s with
  | case1 s e s' notices hnext => simp
  | case2 s s' notices hnext => simp
  | case3 s t s' notices hnext tokens reply hdrain ih =>
    obtain ⟨hfirst, hrest⟩ := h.next
    rw [hnext] at hfirst hrest
    rw [hdrain] at ih
    rw [List.forall_mem_cons]
    exact ⟨hfirst t (by simp), ih hrest⟩

end Utters

/-! ### What cannot be written -/

/-- A file answers with what it has. -/
theorem mem_rest_of_mem_answers {file : FileSource} {c : CodePoint} {n : Nat}
    (h : .ok (some c) ∈ answers file n) : c ∈ file.rest := by
  induction n generalizing file with
  | zero => simp at h
  | succ n ih =>
    have hpull : (CharSource.pull file).outcome = .ok (some c) → c ∈ file.rest := by
      simp only [CharSource.pull, FileSource.pull]
      split
      · simp
      · split
        · split <;> simp
        · next d rest hrest =>
          intro hd
          obtain rfl : d = c := by simpa using hd
          simp [hrest]
    have hrest : (CharSource.pull file).next.rest ⊆ file.rest := by
      simp only [CharSource.pull, FileSource.pull]
      split
      · simp
      · split
        · split <;> simp
        · next d rest hrest => simp [hrest]
    rw [answers_succ, List.mem_cons] at h
    rcases h with h | h
    · exact hpull h.symm
    · exact hrest (ih h)

variable {settings : Settings} {bytes : List UInt8} {name : Option String} {t : Token}

/-- **What cannot be written is a mark.** -/
theorem mark_of_mem_drain (ht : t ∈ (ofSettings (fileSource bytes) settings name).drain.1)
    (hnone : Text.Utf8.encodeUnit? t.char = none) :
    t.char = settings.indentMark ∨ t.char = settings.dedentMark := by
  let P (t : Token) : Prop :=
    t.WrittenAs settings.indentMark settings.dedentMark ∧
      (t.role = .content → Text.Utf8.encodeUnit? t.char ≠ none)
  have hutters : Utters P (ofSettings (fileSource bytes) settings name) :=
    { opened := rfl
      pending := .empty rfl
      due := by simp [ofSettings, ofSource, Engine.ofSettings, due]
      characters := by
        intro n c hc
        have hrest := mem_rest_of_mem_answers (mem_charsOf hc)
        obtain ⟨d, -, rfl⟩ := List.mem_map.1 hrest
        exact ⟨Token.writtenAs_content _ _ _, by simp [Token.content, Text.Utf8.encodeUnit?]⟩
      marks := by
        intro before after t ht
        have hwritten := Layout.writtenAs_of_mem_marks ht
        have hlayout : (ofSettings (fileSource bytes) settings name).engine.layout =
            settings.layout := rfl
        rw [hlayout, settings.layout_eq] at hwritten
        exact ⟨hwritten, fun hrole => absurd hrole (Layout.role_of_mem_marks ht)⟩ }
  obtain ⟨⟨hindent, hdedent⟩, hcontent⟩ := forall_mem_drain hutters t ht
  cases hrole : t.role with
  | content => exact absurd hnone (hcontent hrole)
  | indent => exact Or.inl (hindent hrole)
  | dedent => exact Or.inr (hdedent hrole)

end Stream

/-- The output of a file stops at a mark of the settings that cannot be written.  What comes before
it is `out`. -/
structure Settings.StopsAt (settings : Settings) (bytes : List UInt8) (name : String)
    (out : List UInt8) (c : CodePoint) : Prop where
  mark : c = settings.indentMark ∨ c = settings.dedentMark
  unwritable : Text.Utf8.encodeUnit? c = none
  due : ∃ tokens mark rest,
    (Stream.ofSettings (fileSource bytes) settings (some name)).drain.1 =
      tokens ++ mark :: rest ∧
    mark.char = c ∧ Text.Utf8.encode? (Token.text tokens) = some out

end Offside
