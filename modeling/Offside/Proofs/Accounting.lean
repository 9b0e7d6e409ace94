import Offside.Proofs.Arrival
import Offside.Proofs.Lossless

/-!
# The account of a stream

Whatever a source answers, a stream can account for it.  The errors of the source are handed on,
one for one.  Its characters are handed out or are still queued, in their order and among marks, if
the whitespace is kept; so whoever knows the marks can tell at all times how far the source has
been read.

The account ends with the first malformed line, whose last character is taken and not handed out.

## Main definitions

* `charsOf`, `failures` — the characters and the errors among some answers.
* `Stream.Recounts` — what was heard is what was handed out and what is queued.

## Main results

* `Engine.Hears.forall_due` — what is queued is a character or a mark, as the conventions have it.
* `Stream.Recounts.next` — a request keeps the account.
* `Stream.exists_account` — errors are handed on once each, and characters in order.
* `Stream.account_after` — the same up to the first malformed line.
-/

namespace Offside

/-! ### Characters and errors -/

/-- The characters among some answers. -/
def charsOf (answers : List (Except ReadError (Option CodePoint))) : List CodePoint :=
  answers.filterMap fun answer => answer.toOption.bind id

/-- The errors among some answers. -/
def failures {α : Type} (answers : List (Except ReadError α)) : List ReadError :=
  answers.filterMap fun
    | .error x => some x
    | .ok _ => none

section Lists

variable {α : Type}

@[simp] theorem charsOf_append (first second : List (Except ReadError (Option CodePoint))) :
    charsOf (first ++ second) = charsOf first ++ charsOf second := List.filterMap_append

@[simp] theorem charsOf_char (c : CodePoint) (rest : List (Except ReadError (Option CodePoint))) :
    charsOf (.ok (some c) :: rest) = c :: charsOf rest := rfl

@[simp] theorem charsOf_end (rest : List (Except ReadError (Option CodePoint))) :
    charsOf (.ok none :: rest) = charsOf rest := rfl

@[simp] theorem charsOf_error (x : ReadError) (rest : List (Except ReadError (Option CodePoint))) :
    charsOf (.error x :: rest) = charsOf rest := rfl

@[simp] theorem charsOf_nil : charsOf [] = [] := rfl

@[simp] theorem failures_append (first second : List (Except ReadError α)) :
    failures (first ++ second) = failures first ++ failures second := List.filterMap_append

theorem mem_charsOf {c : CodePoint} {answers : List (Except ReadError (Option CodePoint))}
    (h : c ∈ charsOf answers) : .ok (some c) ∈ answers := by
  obtain ⟨answer, hanswer, hc⟩ := List.mem_filterMap.1 h
  match answer with
  | .ok (some d) =>
    obtain rfl : d = c := by simpa [Except.toOption] using hc
    exact hanswer
  | .ok none => simp [Except.toOption] at hc
  | .error x => simp [Except.toOption] at hc

end Lists

/-! ### What is heard is kept -/

namespace Engine

variable {file : Option String} {e e' : Engine}
  {answers : List (Except ReadError (Option CodePoint))} {error : Option ReadError}

/-- The errors that are heard are the error of the source, or there is none and the line is
malformed. -/
theorem Hears.failures_eq (h : Hears file e answers error e') :
    failures answers = error.toList ∨ ∃ m, error = some (.mismatch m) ∧ failures answers = [] := by
  induction h with
  | ended => exact Or.inl rfl
  | fail => exact Or.inl rfl
  | stop => exact Or.inl rfl
  | hold hmore hc hrest ih => exact ih
  | pass => exact Or.inl rfl
  | level => exact Or.inl rfl
  | misfit => exact Or.inr ⟨_, rfl, rfl⟩

/-- If whitespace is kept, the characters that are heard are queued, unless their line is
malformed. -/
theorem Hears.contents_due (h : Hears file e answers error e')
    (hkeep : e.layout.keepWhitespace = true) (herror : ∀ m, error ≠ some (.mismatch m)) :
    Token.contents e'.due = Token.contents e.due ++ charsOf answers := by
  induction h with
  | ended => simp
  | fail => simp
  | @stop e hmore =>
    have hdue : e.finish.due = e.due := rfl
    simp [hdue]
  | @hold e e' c answers error hmore hc hrest ih =>
    rw [ih (by simpa using hkeep) herror, due_holdBack]
    simp
  | @pass e c hmore hc =>
    have hobserve : ((e.arrive c).observe c).due = e.due := e.due_arrive c
    rw [due_enqueue_some, hobserve]
    simp
  | @level e c stack hmore hc hstack =>
    have hrelevel : ((e.arrive c).relevel stack).due = e.due := e.due_arrive c
    have hlayout : ((e.arrive c).relevel stack).layout = e.layout := e.layout_arrive c
    rw [due_place, hrelevel, hlayout, hkeep]
    simp [Layout.contents_marks]
  | misfit => exact absurd rfl (herror _)

/-- What holds of the characters that are heard, and of the marks of any line, holds of all that is
queued. -/
theorem Hears.forall_due {P : Token → Prop} (h : Hears file e answers error e')
    (hcontent : ∀ c ∈ charsOf answers, P (.content c))
    (hmarks : ∀ before after, ∀ t ∈ e.layout.marks before after, P t)
    (hdue : ∀ t ∈ e.due, P t) : ∀ t ∈ e'.due, P t := by
  have hconcat {tokens : List Token} {c : CodePoint} (hc : P (.content c))
      (htokens : ∀ t ∈ tokens, P t) : ∀ t ∈ tokens ++ [Token.content c], P t := by
    intro t ht
    rcases List.mem_append.1 ht with ht | ht
    · exact htokens t ht
    · rw [List.mem_singleton.1 ht]
      exact hc
  -- by what is heard; a character joins the queue in every case but a failure
  induction h with
  | ended => rwa [due_enqueue_none]
  | fail => exact hdue
  | stop =>
    rw [due_enqueue_none]
    exact hdue
  | @hold e e' c answers error hmore hc hrest ih =>
    rw [layout_holdBack, due_holdBack] at ih
    rw [charsOf_char, List.forall_mem_cons] at hcontent
    exact ih hcontent.2 hmarks (hconcat hcontent.1 hdue)
  | @pass e c hmore hc =>
    have hobserve : ((e.arrive c).observe c).due = e.due := e.due_arrive c
    rw [due_enqueue_some, hobserve]
    exact hconcat (hcontent c (by simp)) hdue
  | @level e c stack hmore hc hstack =>
    have hrelevel : ((e.arrive c).relevel stack).due = e.due := e.due_arrive c
    rw [due_place, hrelevel]
    apply hconcat (hcontent c (by simp))
    intro t ht
    rcases List.mem_append.1 ht with ht | ht
    · exact hmarks _ _ t ht
    · split at ht
      · exact hdue t ht
      · simp at ht
  | @misfit e c hmore hc hstack =>
    rw [due_arrive]
    exact hdue

/-- What is queued besides characters is marks. -/
theorem Hears.marked (h : Hears file e answers error e')
    (hmarked : ∀ t ∈ e.due, e.layout.Marked t) : ∀ t ∈ e'.due, e.layout.Marked t :=
  h.forall_due (fun _ _ => Or.inl rfl) (fun _ _ _ => Layout.marked_of_mem_marks) hmarked

end Engine

/-! ### The account of a stream -/

namespace Stream

open Engine CharSource

/-- The tokens among some answers. -/
def tokensIn (outcomes : List (Except ReadError (Option Token))) : List Token :=
  outcomes.flatMap tokensOf

@[simp] theorem tokensIn_append (first second : List (Except ReadError (Option Token))) :
    tokensIn (first ++ second) = tokensIn first ++ tokensIn second := List.flatMap_append

@[simp] theorem tokensIn_singleton (o : Except ReadError (Option Token)) :
    tokensIn [o] = tokensOf o := List.flatMap_singleton _ _

/-- What was heard is what was handed out and what is queued. -/
structure Recounts (heard : List (Except ReadError (Option CodePoint)))
    (seen : List (Except ReadError (Option Token))) (e : Engine) : Prop where
  failures_eq : failures seen = failures heard
  contents_eq : e.layout.keepWhitespace = true →
    Token.contents (tokensIn seen ++ e.due) = charsOf heard
  marked : ∀ t ∈ tokensIn seen ++ e.due, e.layout.Marked t
  ended : e.exhausted = true → .ok none ∈ heard

variable {heard answers : List (Except ReadError (Option CodePoint))}
  {seen : List (Except ReadError (Option Token))} {e e' : Engine} {error : Option ReadError}
  {file : Option String}

/-- What is heard is added to the account. -/
theorem Recounts.hears (h : Recounts heard seen e) (hhears : Hears file e answers error e')
    (herror : ∀ m, error ≠ some (.mismatch m)) :
    Recounts (heard ++ answers) (seen ++ (error.map Except.error).toList) e' where
  failures_eq := by
    rcases hhears.failures_eq with hsame | ⟨m, hm, -⟩
    · rw [failures_append, failures_append, h.failures_eq, hsame]
      cases error with
      | none => rfl
      | some x => rfl
    · exact absurd hm (herror m)
  contents_eq hkeep := by
    rw [hhears.layout_eq] at hkeep
    have htokens : tokensIn (error.map Except.error).toList = [] := by cases error <;> rfl
    have hbefore := h.contents_eq hkeep
    rw [Token.contents_append] at hbefore
    rw [tokensIn_append, htokens, List.append_nil, Token.contents_append,
      hhears.contents_due hkeep herror, ← List.append_assoc, hbefore, charsOf_append]
  marked := by
    have htokens : tokensIn (error.map Except.error).toList = [] := by cases error <;> rfl
    rw [hhears.layout_eq, tokensIn_append, htokens, List.append_nil]
    intro t ht
    rcases List.mem_append.1 ht with ht | ht
    · exact h.marked t (List.mem_append_left _ ht)
    · exact hhears.marked (fun u hu => h.marked u (List.mem_append_right _ hu)) t ht
  ended hended := by
    cases hmore : e.exhausted with
    | true => exact List.mem_append_left _ (h.ended hmore)
    | false => exact List.mem_append_right _ (hhears.mem_of_exhausted hmore hended)

section HandOut

variable {σ : Type} {s : Stream σ}

/-- What is handed out was queued, or is a mark of the end. -/
theorem due_handOut (hp : s.engine.Pending) (hne : s.engine.queue ≠ []) :
    ∃ n, tokensOf s.handOut.outcome ++ s.handOut.next.engine.due =
      s.engine.due ++ List.replicate n s.engine.dedentToken := by
  rcases handOut_cases hp hne with ⟨t, rest, hq, hs, -⟩ | ⟨hq, -, -, hs⟩ | ⟨n, hq, -, -, hs⟩
  · refine ⟨0, ?_⟩
    rw [hs]
    simp [due, handed, hq, List.reduceOption]
  · refine ⟨0, ?_⟩
    rw [hs]
    simp [due, shift, hq, List.reduceOption]
  · refine ⟨n + 1, ?_⟩
    rw [hs]
    simp [due, flushed, hq, List.reduceOption, List.replicate_succ]

/-- What is handed out stays in the account. -/
theorem Recounts.handOut (h : Recounts heard seen s.engine) (hp : s.engine.Pending)
    (hne : s.engine.queue ≠ []) :
    Recounts heard (seen ++ [s.handOut.outcome]) s.handOut.next.engine := by
  obtain ⟨n, hdue⟩ := due_handOut hp hne
  have htokens : tokensIn (seen ++ [s.handOut.outcome]) ++ s.handOut.next.engine.due =
      (tokensIn seen ++ s.engine.due) ++ List.replicate n s.engine.dedentToken := by
    rw [tokensIn_append, tokensIn_singleton, List.append_assoc, hdue, List.append_assoc]
  constructor
  · rw [failures_append, h.failures_eq]
    exact List.append_nil _
  · intro hkeep
    rw [layout_handOut] at hkeep
    have hmarks : Token.contents (List.replicate n s.engine.dedentToken) = [] :=
      Token.contents_of_marks (by simp [dedentToken])
    rw [htokens, Token.contents_append, hmarks, List.append_nil, h.contents_eq hkeep]
  · rw [layout_handOut, htokens]
    intro t ht
    rcases List.mem_append.1 ht with ht | ht
    · exact h.marked t ht
    · rw [List.eq_of_mem_replicate ht]
      exact Or.inr (Or.inr rfl)
  · intro hended
    rw [exhausted_handOut] at hended
    exact h.ended hended

end HandOut

variable {σ : Type} [CharSource σ] {s : Stream σ}

/-- A request keeps the account, unless a line is malformed. -/
theorem Recounts.next (h : Recounts heard seen s.engine) (hopen : s.closed = false)
    (hp : s.engine.Pending) (hno : ∀ m, s.next.outcome ≠ .error (.mismatch m)) :
    ∃ k, s.next.next.source = asked s.source k ∧
      Recounts (heard ++ CharSource.answers s.source k) (seen ++ [s.next.outcome])
        s.next.next.engine := by
  rcases next_hears hopen with ⟨hne, hs⟩ | ⟨hq, k, error, e, told, hhears, hs⟩
  · refine ⟨0, by rw [hs]; rfl, ?_⟩
    rw [hs, answers_zero, List.append_nil]
    exact h.handOut hp hne
  · have herror : ∀ m, error ≠ some (.mismatch m) := by
      rintro m rfl
      exact hno m (by rw [hs]; rfl)
    -- what is heard comes into the account first, and then something leaves the queue
    have hheard := h.hears hhears herror
    refine ⟨k, ?_, ?_⟩
    · rw [hs]
      cases error with
      | none => rfl
      | some x => rfl
    · rw [hs]
      cases error with
      | some x => exact hheard
      | none =>
        have hpending : e.Pending := hhears.pending [] hq
        have hheard' : Recounts (heard ++ CharSource.answers s.source k) seen e := by
          simpa using hheard
        exact hheard'.handOut (s := s.fed k e) hpending hhears.queue_ne_nil

/-- What is queued is of its kind after every request. -/
theorem pending_after (source : σ) (name : Option String) (l : Layout) (rules : List Rule)
    (n : Nat) :
    ((start source name l rules).after n).engine.Pending := by
  induction n with
  | zero => exact .empty rfl
  | succ n ih =>
    rw [after_succ_last]
    exact pending_next (name_after rfl n).2 ih

/-- **What was asked for is what was handed out and what is queued**, as long as no line is
malformed. -/
theorem exists_recounts (source : σ) (name : Option String) (l : Layout) (rules : List Rule)
    (n : Nat) (hno : ∀ m, .error (.mismatch m) ∉ (start source name l rules).outcomes n) :
    ∃ j, ((start source name l rules).after n).source = asked source j ∧
      Recounts (CharSource.answers source j) ((start source name l rules).outcomes n)
        ((start source name l rules).after n).engine := by
  induction n with
  | zero =>
    refine ⟨0, rfl, rfl, fun _ => rfl, ?_, ?_⟩
    · simp [tokensIn, start, fresh, due]
    · simp [start, fresh]
  | succ n ih =>
    rw [outcomes_succ_last] at hno ⊢
    obtain ⟨j, hsource, hrecounts⟩ := ih fun m hm => hno m (List.mem_append_left _ hm)
    obtain ⟨k, hnext, hrecounts'⟩ := hrecounts.next (name_after rfl n).2
      (pending_after source name l rules n) fun m hm => hno m (by simp [hm])
    rw [hsource, ← asked_add] at hnext
    rw [hsource, ← answers_add] at hrecounts'
    rw [after_succ_last]
    exact ⟨j + k, hnext, hrecounts'⟩

/-- If the marks are no characters of the source, what was handed out that is no mark is a
beginning of what was asked for. -/
theorem Recounts.prefix_unmark (h : Recounts heard seen e)
    (hkeep : e.layout.keepWhitespace = true) (hindent : .ok (some e.layout.indentMark) ∉ heard)
    (hdedent : .ok (some e.layout.dedentMark) ∉ heard) :
    e.layout.unmark (Token.text (tokensIn seen)) ++ Token.contents e.due = charsOf heard := by
  have hcontents := h.contents_eq hkeep
  rw [Token.contents_append] at hcontents
  -- a mark among the contents would be a character of the source
  have hmem {c : CodePoint} (hc : c ∈ Token.contents (tokensIn seen)) : .ok (some c) ∈ heard := by
    apply mem_charsOf
    rw [← hcontents]
    exact List.mem_append_left _ hc
  rw [Layout.unmark_text, hcontents]
  · intro t ht
    exact h.marked t (List.mem_append_left _ ht)
  · exact fun hc => hindent (hmem hc)
  · exact fun hc => hdedent (hmem hc)

/-! ### The account at all times -/

omit [CharSource σ] in
theorem handOut_end (hp : s.engine.Pending) (hne : s.engine.queue ≠ [])
    (h : s.handOut.outcome = .ok none) :
    s.handOut.next.engine.due = [] ∧ s.handOut.next.engine.exhausted = true := by
  rcases handOut_cases hp hne with ⟨t, rest, -, hs, -⟩ | ⟨-, hended, -, hs⟩ | ⟨n, -, -, -, hs⟩
  · simp [hs] at h
  · rw [hs]
    exact ⟨rfl, hended⟩
  · simp [hs] at h

/-- At the end nothing is queued. -/
theorem next_end (hopen : s.closed = false) (hp : s.engine.Pending)
    (h : s.next.outcome = .ok none) :
    s.next.next.engine.due = [] ∧ s.next.next.engine.exhausted = true := by
  rcases next_hears hopen with ⟨hne, hs⟩ | ⟨hq, k, error, e, told, hhears, hs⟩
  · rw [hs] at h ⊢
    exact handOut_end hp hne h
  · rw [hs] at h ⊢
    cases error with
    | some x => simp [reply] at h
    | none =>
      exact handOut_end (s := s.fed k e) (hhears.pending [] hq) hhears.queue_ne_nil h

/-- A line that does not fit is an error of the source, or of the stream itself. -/
theorem next_mismatch {m : Mismatch} (hopen : s.closed = false)
    (h : s.next.outcome = .error (.mismatch m)) :
    ∃ k, s.next.next.source = asked s.source k ∧
      (failures (CharSource.answers s.source k) = [.mismatch m] ∨
        failures (CharSource.answers s.source k) = []) := by
  rcases next_hears hopen with ⟨-, hs⟩ | ⟨-, k, error, e, told, hhears, hs⟩
  · rw [hs] at h
    cases h
  · rw [hs] at h ⊢
    cases error with
    | none => cases h
    | some x =>
      obtain rfl : x = .mismatch m := by simpa [reply] using h
      refine ⟨k, rfl, ?_⟩
      rcases hhears.failures_eq with hsame | ⟨-, -, hnone⟩
      · exact Or.inl hsame
      · exact Or.inr hnone

/-- **Errors are handed on once each, and characters in order**, up to the first malformed line. -/
theorem account_after (source : σ) (name : Option String) (l : Layout) (rules : List Rule)
    (n : Nat) (hno : ∀ m, .error (.mismatch m) ∉ (start source name l rules).outcomes n) :
    let s := start source name l rules
    let text := Token.text (tokensIn (s.outcomes (n + 1)))
    ∃ j, (s.after (n + 1)).source = asked source j ∧
      (failures (s.outcomes (n + 1)) = failures (CharSource.answers source j) ∨
        ∃ m, (s.after n).next.outcome = .error (.mismatch m) ∧
          failures (s.outcomes n) = failures (CharSource.answers source j)) ∧
      (l.keepWhitespace = true →
        (∀ i, .ok (some l.indentMark) ∉ CharSource.answers source i) →
        (∀ i, .ok (some l.dedentMark) ∉ CharSource.answers source i) →
          l.unmark text <+: charsOf (CharSource.answers source j) ∧
            ((s.after n).next.outcome = .ok none → .ok none ∈ CharSource.answers source j ∧
              l.unmark text = charsOf (CharSource.answers source j))) := by
  intro s text
  have hopen : (s.after n).closed = false := (name_after rfl n).2
  have hpending : (s.after n).engine.Pending := pending_after source name l rules n
  have hlayout (i : Nat) : (s.after i).engine.layout = l := layout_after rfl i
  by_cases hmismatch : ∃ m, (s.after n).next.outcome = .error (.mismatch m)
  · -- the last request hands nothing out
    obtain ⟨m, hm⟩ := hmismatch
    obtain ⟨j, hsource, hrecounts⟩ := exists_recounts source name l rules n hno
    obtain ⟨k, hnext, hfailures⟩ := next_mismatch hopen hm
    rw [hsource, ← asked_add] at hnext
    rw [hsource] at hfailures
    refine ⟨j + k, by rw [after_succ_last, hnext], ?_, ?_⟩
    · rw [answers_add, failures_append, outcomes_succ_last, failures_append, hm,
        hrecounts.failures_eq]
      rcases hfailures with hsame | hnone
      · exact Or.inl (by rw [hsame]; rfl)
      · exact Or.inr ⟨m, rfl, by rw [hnone, List.append_nil]⟩
    · -- the character that decided about the line has been taken and is in no queue
      intro hkeep hindent hdedent
      have hlayout' := hlayout n
      have hprefix := hrecounts.prefix_unmark (by rw [hlayout', hkeep])
        (by rw [hlayout']; exact hindent j) (by rw [hlayout']; exact hdedent j)
      have htext : text = Token.text (tokensIn (s.outcomes n)) := by
        show Token.text (tokensIn (s.outcomes (n + 1))) = _
        rw [outcomes_succ_last, tokensIn_append, tokensIn_singleton, hm, tokensOf_error,
          List.append_nil]
      rw [hlayout'] at hprefix
      rw [htext, answers_add, charsOf_append, ← hprefix, hm]
      refine ⟨?_, by simp⟩
      rw [List.append_assoc]
      exact List.prefix_append _ _
  · -- no line is malformed yet, so the account covers the last request too
    rw [not_exists] at hmismatch
    have hno' : ∀ m, .error (.mismatch m) ∉ s.outcomes (n + 1) := by
      intro m hm
      rw [outcomes_succ_last, List.mem_append] at hm
      rcases hm with hm | hm
      · exact hno m hm
      · exact hmismatch m (List.mem_singleton.1 hm).symm
    obtain ⟨j, hsource, hrecounts⟩ := exists_recounts source name l rules (n + 1) hno'
    refine ⟨j, hsource, Or.inl hrecounts.failures_eq, ?_⟩
    intro hkeep hindent hdedent
    have hlayout' := hlayout (n + 1)
    have hprefix := hrecounts.prefix_unmark (by rw [hlayout', hkeep])
      (by rw [hlayout']; exact hindent j) (by rw [hlayout']; exact hdedent j)
    rw [hlayout'] at hprefix
    refine ⟨⟨_, hprefix⟩, ?_⟩
    intro hend
    -- at the end of the input nothing is queued, so the prefix is all
    obtain ⟨hdue, hended⟩ := next_end hopen hpending hend
    rw [after_succ_last] at hprefix
    refine ⟨hrecounts.ended (by rw [after_succ_last]; exact hended), ?_⟩
    rw [← hprefix, hdue, Token.contents_nil, List.append_nil]

end Stream

end Offside
