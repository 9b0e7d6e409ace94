import Offside.Proofs.Outcomes
import Offside.Proofs.Marks
import Offside.Proofs.Options
import Offside.Source.Chunks
import Offside.Source.File

/-!
# How characters arrive

A stream does not see where its characters come from.  They may be at hand as a text, lie in a file,
come in chunks of any length or be the output of another stream: as long as two sources give the
same answers up to the end of the input, the analyses of two streams over them are equal after every
request, and so are the answers, but for the name of the stream in an error.

The output of a stream is such a source of its own output.  So a stream over a stream reads what it
would read from the complete text that the inner stream delivers.

## Main definitions

* `CharSource.Agree` — two sources give the same answers up to the end.
* `CharSource.Delivers` — a source hands out a text and comes to its end.
* `Stream.Alike` — two streams are at the same point over sources that agree.

## Main results

* `Stream.Alike.next` — streams that are alike stay alike.
* `CharSource.delivers_chunks`, `Stream.delivers_of_read` — chunks deliver their characters, and a
  stream delivers what it reads.
* `Stream.after_of_delivers` — **only the characters matter**, and not how they arrive.
-/

namespace Offside

namespace CharSource

variable {σ τ : Type} [CharSource σ] [CharSource τ] {a : σ} {b : τ} {text : List CodePoint}
  {c : CodePoint} {m n k : Nat}

/-! ### Sources that agree -/

/-- Two sources give the same answers, up to the end of the input. -/
def Agree (a : σ) (b : τ) : Prop :=
  ∀ n, .ok none ∉ answers a n → answers a (n + 1) = answers b (n + 1)

/-- What is asked after the same answers has the same answers. -/
theorem Agree.asked (h : Agree a b) (hm : .ok none ∉ answers a m) :
    Agree (CharSource.asked a m) (CharSource.asked b m) := by
  intro n hn
  have hmn : .ok none ∉ answers a (m + n) := by
    rw [answers_add, List.mem_append, not_or]
    exact ⟨hm, hn⟩
  exact answers_asked_eq (h (m + n) hmn)

/-- Answers of which only the last may be the end are the same. -/
theorem Agree.answers_eq (h : Agree a b) (hk : .ok none ∉ (answers a k).dropLast) :
    answers b k = answers a k := by
  cases k with
  | zero => rfl
  | succ k =>
    rw [answers_succ_last, List.dropLast_concat] at hk
    exact (h k hk).symm

/-- A source hands out the characters of a text and comes to its end then. -/
def Delivers (source : σ) (text : List CodePoint) : Prop :=
  answers source (text.length + 1) = text.map (fun c => .ok (some c)) ++ [.ok none]

/-- Sources that deliver the same text agree. -/
theorem Delivers.agree (ha : Delivers a text) (hb : Delivers b text) : Agree a b := by
  intro n hn
  have hle : n ≤ text.length := by
    by_contra hlt
    apply hn
    apply (prefix_answers a (Nat.lt_of_not_le hlt)).subset
    rw [ha]
    simp
  exact answers_eq_of_le (ha.trans hb.symm) (Nat.succ_le_succ hle)

theorem delivers_nil : Delivers a [] ↔ (pull a).outcome = .ok none := by
  simp [Delivers, answers]

theorem delivers_cons :
    Delivers a (c :: text) ↔ (pull a).outcome = .ok (some c) ∧ Delivers (pull a).next text := by
  simp [Delivers, answers]

/-- What is delivered depends on the next request only. -/
theorem Delivers.of_pull_eq {a' : σ} (hpull : pull a' = pull a) (h : Delivers a text) :
    Delivers a' text := by
  unfold Delivers at h ⊢
  rwa [answers_succ, hpull, ← answers_succ]

/-! ### Sources of a text -/

theorem delivers_text (text : List CodePoint) (name : Option String) :
    Delivers ({ rest := text, name := name } : TextSource) text := by
  induction text with
  | nil => exact delivers_nil.2 rfl
  | cons c text ih => exact delivers_cons.2 ⟨rfl, ih⟩

/-- An open file without a fault delivers its contents. -/
theorem delivers_file (text : List CodePoint) (name : Option String) :
    Delivers ({ rest := text, name := name } : FileSource) text := by
  induction text with
  | nil => exact delivers_nil.2 rfl
  | cons c text ih => exact delivers_cons.2 ⟨rfl, ih⟩

theorem fetch_with_chunks (s : ChunkSource) (other chunks : List Chunk) :
    ({ s with producer := { s.producer with chunks := other } } : ChunkSource).fetch chunks =
      s.fetch chunks := by
  fun_induction ChunkSource.fetch s chunks with
  | case1 => rfl
  | case2 => rfl
  | case3 rest ih => exact ih
  | case4 c cs rest => rfl

/-- **Chunks deliver their characters**, however they are cut. -/
theorem delivers_chunks (pending : List CodePoint) (chunks : List (List CodePoint))
    (finished : Bool) (name : Option String) :
    Delivers ({ pending := pending, producer := ⟨chunks.map .text, finished⟩, name := name } :
      ChunkSource) (pending ++ chunks.flatten) := by
  -- along the chunks, and within a chunk along the characters in hand
  induction chunks generalizing pending with
  | nil =>
    induction pending with
    | nil => exact delivers_nil.2 rfl
    | cons c pending ih => exact delivers_cons.2 ⟨rfl, ih⟩
  | cons chunk chunks ih =>
    induction pending with
    | cons c pending ihp => exact delivers_cons.2 ⟨rfl, ihp⟩
    | nil =>
      cases chunk with
      | nil =>
        -- an empty chunk is skipped within the request
        refine (ih []).of_pull_eq ?_
        exact fetch_with_chunks { producer := ⟨chunks.map .text, finished⟩, name := name }
          (.text [] :: chunks.map .text) (chunks.map .text)
      | cons c chunk => exact delivers_cons.2 ⟨rfl, ih chunk⟩

end CharSource

namespace Stream

open Engine CharSource

variable {σ τ : Type} [CharSource σ] [CharSource τ] {s : Stream σ} {t : Stream τ}
  {text : List CodePoint}

/-- **A stream delivers what it reads.** -/
theorem delivers_of_read (h : (s.read (-1)).outcome = .ok text) : Delivers s text := by
  rw [read_eq_drain, Reply.outcome_map] at h
  -- along the tokens that are read, each of which is the answer to one request
  induction hdrain : s.drain.1 generalizing s text with
  | nil =>
    rw [drain_eq] at h hdrain
    rcases hnext : s.next with ⟨x | _ | t, s', notices⟩
    · simp [hnext, drainAfter, Except.map] at h
    · obtain rfl : [] = text := by simpa [hnext, drainAfter, Except.map, Token.text] using h
      refine delivers_nil.2 ?_
      show s.next.outcome.map _ = _
      rw [hnext]
      rfl
    · simp [hnext, drainAfter, ahead] at hdrain
  | cons t tokens ih =>
    rw [drain_eq] at h hdrain
    rcases hnext : s.next with ⟨x | _ | u, s', notices⟩
    · simp [hnext, drainAfter] at hdrain
    · simp [hnext, drainAfter] at hdrain
    · rw [hnext] at h hdrain
      obtain ⟨rfl, htokens⟩ : u = t ∧ s'.drain.1 = tokens := by
        simpa [drainAfter, ahead] using hdrain
      have hrest : s'.drain.2.outcome.map (fun _ => u.char :: Token.text s'.drain.1) =
          .ok text := h
      cases houtcome : s'.drain.2.outcome with
      | error x => simp [houtcome, Except.map] at hrest
      | ok done =>
        obtain rfl : u.char :: Token.text s'.drain.1 = text := by
          simpa [houtcome, Except.map] using hrest
        -- the first answer is the first character, and the stream goes on with the others
        refine delivers_cons.2 ⟨?_, ?_⟩
        · show s.next.outcome.map _ = _
          rw [hnext]
          rfl
        · show Delivers s.next.next _
          rw [hnext]
          exact ih (by rw [houtcome]; rfl) htokens

/-! ### Streams that are alike -/

/-- Two streams are at the same point of the analysis, over sources that agree on what is to
come. -/
structure Alike (s : Stream σ) (t : Stream τ) : Prop where
  engine_eq : t.engine = s.engine
  left_open : s.closed = false
  right_open : t.closed = false
  source : s.engine.exhausted = true ∨ Agree s.source t.source

end Stream

/-- An error without the name of the stream. -/
def ReadError.unnamed : ReadError → ReadError
  | .mismatch m => .mismatch { m with file := none }
  | x => x

/-- Another name is heard in an error at most. -/
theorem Engine.Hears.rename {file : Option String} {e e' : Engine}
    {answers : List (Except ReadError (Option CodePoint))} {error : Option ReadError}
    (h : Hears file e answers error e') (other : Option String) :
    ∃ error', Hears other e answers error' e' ∧
      error'.map ReadError.unnamed = error.map ReadError.unnamed := by
  induction h with
  | ended hended => exact ⟨none, .ended hended, rfl⟩
  | fail hmore x => exact ⟨some x, .fail hmore x, rfl⟩
  | stop hmore => exact ⟨none, .stop hmore, rfl⟩
  | hold hmore hc hrest ih =>
    obtain ⟨error', hhears, herror⟩ := ih
    exact ⟨error', .hold hmore hc hhears, herror⟩
  | pass hmore hc => exact ⟨none, .pass hmore hc, rfl⟩
  | level hmore hc hstack => exact ⟨none, .level hmore hc hstack, rfl⟩
  | misfit hmore hc hstack => exact ⟨_, .misfit hmore hc hstack, rfl⟩

namespace Stream

open Engine CharSource

section HandOut

variable {σ τ : Type} {s : Stream σ} {t : Stream τ}

/-- What is handed out depends on the analysis only. -/
theorem handOut_congr (h : t.engine = s.engine) :
    t.handOut.outcome = s.handOut.outcome ∧ t.handOut.next.engine = s.handOut.next.engine := by
  simp only [handOut, h]
  exact ⟨rfl, rfl⟩

end HandOut

variable {σ τ : Type} [CharSource σ] [CharSource τ] {s : Stream σ} {t : Stream τ}
  {text : List CodePoint}

/-- Streams that are alike hear the same. -/
theorem Alike.fed {k : Nat} {e : Engine} {error : Option ReadError} {file : Option String}
    (h : Alike s t) (hhears : Hears file s.engine (answers s.source k) error e) :
    answers t.source k = answers s.source k ∧ Alike (s.fed k e) (t.fed k e) := by
  rcases h.source with hended | hagree
  · obtain ⟨hnil, he⟩ := hhears.exhausted_of_exhausted hended
    obtain rfl : k = 0 := by simpa using congrArg List.length hnil
    exact ⟨rfl, rfl, h.left_open, h.right_open, Or.inl he⟩
  · -- what is heard stops at the end of the input, and so far the sources agree
    have hchars : .ok none ∉ (answers s.source k).dropLast := by
      intro hnone
      obtain ⟨c, hc⟩ := hhears.exists_of_mem_dropLast _ hnone
      simp at hc
    refine ⟨hagree.answers_eq hchars, rfl, h.left_open, h.right_open, ?_⟩
    -- behind the end the sources may differ, but nobody asks them any more
    by_cases hnone : .ok none ∈ answers s.source k
    · exact Or.inl (hhears.exhausted_of_mem hnone)
    · exact Or.inr (hagree.asked hnone)

theorem Alike.handOut (h : Alike s t) : Alike s.handOut.next t.handOut.next where
  engine_eq := (handOut_congr h.engine_eq).2
  left_open := h.left_open
  right_open := h.right_open
  source := by
    rw [exhausted_handOut]
    exact h.source

theorem Alike.reply (h : Alike s t) (error : Option ReadError) :
    Alike (s.reply error).next (t.reply error).next ∧
      (t.reply error).outcome = (s.reply error).outcome := by
  cases error with
  | none => exact ⟨h.handOut, (handOut_congr h.engine_eq).1⟩
  | some x => exact ⟨h, rfl⟩

omit [CharSource σ] in
/-- Only the error of a reply has a name in it. -/
theorem reply_rename {error error' : Option ReadError}
    (h : error'.map ReadError.unnamed = error.map ReadError.unnamed) (s : Stream σ) :
    (s.reply error').next = (s.reply error).next ∧
      (s.reply error').outcome.mapError ReadError.unnamed =
        (s.reply error).outcome.mapError ReadError.unnamed := by
  cases error with
  | none =>
    obtain rfl : error' = none := by simpa using h
    exact ⟨rfl, rfl⟩
  | some x =>
    cases error' with
    | none => simp at h
    | some y => exact ⟨rfl, congrArg Except.error (Option.some.inj h)⟩

/-- **Streams that are alike stay alike.** -/
theorem Alike.next (h : Alike s t) :
    Alike s.next.next t.next.next ∧
      t.next.outcome.mapError ReadError.unnamed = s.next.outcome.mapError ReadError.unnamed ∧
      (t.name = s.name → t.next.outcome = s.next.outcome) := by
  rcases next_hears h.left_open with ⟨hq, hs⟩ | ⟨hq, k, error, e, told, hhears, hs⟩
  · have ht : t.next = t.handOut := by
      apply next_of_queue_ne_nil h.right_open
      rwa [h.engine_eq]
    have hsame := (handOut_congr h.engine_eq).1
    rw [hs, ht, hsame]
    exact ⟨h.handOut, rfl, fun _ => rfl⟩
  · have hq' : t.engine.queue = [] := by rw [h.engine_eq, hq]
    obtain ⟨hanswers, hfed⟩ := h.fed hhears
    obtain ⟨hnext, houtcome⟩ := hfed.reply error
    -- what the second stream hears under its own name
    have hreply {error' : Option ReadError}
        (hhears' : Hears t.name s.engine (answers s.source k) error' e) :
        ∃ told, t.next = ((t.fed k e).reply error').after told := by
      apply next_of_hears h.right_open hq'
      rwa [hanswers, h.engine_eq]
    obtain ⟨error', hhears', herror⟩ := hhears.rename t.name
    obtain ⟨told', ht⟩ := hreply hhears'
    obtain ⟨hsame, hunnamed⟩ := reply_rename herror (t.fed k e)
    refine ⟨?_, ?_, ?_⟩
    · rw [hs, ht, Reply.next_after, Reply.next_after, hsame]
      exact hnext
    · rw [hs, ht, Reply.outcome_after, Reply.outcome_after, hunnamed, houtcome]
    · intro hname
      rw [← hname] at hhears
      obtain ⟨told'', ht'⟩ := hreply hhears
      rw [hs, ht', Reply.outcome_after, Reply.outcome_after, houtcome]

/-- Streams that are alike are alike after every request. -/
theorem Alike.after (h : Alike s t) (n : Nat) : Alike (s.after n) (t.after n) := by
  induction n with
  | zero => exact h
  | succ n ih =>
    rw [after_succ_last, after_succ_last]
    exact ih.next.1

/-- Streams that are alike and have the same name are answered the same. -/
theorem Alike.outcomes (h : Alike s t) (hname : t.name = s.name)
    (n : Nat) : t.outcomes n = s.outcomes n := by
  induction n with
  | zero => rfl
  | succ n ih =>
    have hname' : (t.after n).name = (s.after n).name := by
      rw [(name_after h.left_open n).1, (name_after h.right_open n).1, hname]
    rw [outcomes_succ_last, outcomes_succ_last, ih, (h.after n).next.2.2 hname']

/-- Streams that are alike and have the same name are read alike. -/
theorem Alike.drain (h : Alike s t) (hname : t.name = s.name) :
    t.drain.1 = s.drain.1 ∧ t.drain.2.outcome = s.drain.2.outcome := by
  -- along the requests of the first stream, each of which the second one makes as well
  fun_induction Stream.drain s generalizing t with
  | case1 s x s' notices hs =>
    have hnext := h.next.2.2 hname
    rw [hs] at hnext
    rcases ht : t.next with ⟨o, t', told⟩
    obtain rfl : o = .error x := by rwa [ht] at hnext
    rw [drain_eq, ht]
    exact ⟨rfl, rfl⟩
  | case2 s s' notices hs =>
    have hnext := h.next.2.2 hname
    rw [hs] at hnext
    rcases ht : t.next with ⟨o, t', told⟩
    obtain rfl : o = .ok none := by rwa [ht] at hnext
    rw [drain_eq, ht]
    exact ⟨rfl, rfl⟩
  | case3 s u s' notices hs tokens reply hdrain ih =>
    obtain ⟨halike, -, houtcome⟩ := h.next
    have houtcome := houtcome hname
    obtain ⟨-, -, hs', -⟩ := next_frame h.left_open
    obtain ⟨-, -, ht', -⟩ := next_frame h.right_open
    rcases ht : t.next with ⟨o, t', told⟩
    rw [ht] at halike houtcome ht'
    rw [hs] at halike houtcome hs'
    obtain rfl : o = .ok (some u) := houtcome
    obtain ⟨htokens, hrest⟩ := ih halike (by rw [ht', hname, hs'])
    rw [drain_eq, ht]
    rw [hdrain] at htokens hrest
    exact ⟨congrArg (u :: ·) htokens, hrest⟩

theorem Alike.read (h : Alike s t) (hname : t.name = s.name) :
    (t.read (-1)).outcome = (s.read (-1)).outcome := by
  obtain ⟨htokens, houtcome⟩ := h.drain hname
  rw [read_eq_drain, read_eq_drain, Reply.outcome_map, Reply.outcome_map, htokens, houtcome]

/-! ### One text -/

/-- Streams over sources that deliver the same text are alike before they are read. -/
theorem alike_start {source : σ} {other : τ} (h : Delivers source text)
    (hother : Delivers other text) (name name' : Option String) (l : Layout) (rules : List Rule) :
    Alike (start source name l rules) (start other name' l rules) where
  engine_eq := rfl
  left_open := rfl
  right_open := rfl
  source := Or.inr (h.agree hother)

/-- What a transformation reads, if it succeeds. -/
theorem read_of_transform {source : σ} {o : Options} {e : Engine}
    (hconfigure : Engine.configure {} o = .ok e) (h : (transform source o).outcome = .ok text) :
    (({ ofSource source none with engine := e } : Stream σ).read (-1)).outcome = .ok text := by
  let s : Stream σ := { ofSource source none with engine := e }
  have hstream : (ofSource source none).engine.configure o = .ok e := hconfigure
  have htransform : (transform source o).outcome =
      (s.readAndClose (-1)).outcome.mapError .read := by
    rw [transform]
    simp only [hstream]
    rfl
  rw [htransform] at h
  cases hclose : (s.read (-1)).next.close.outcome with
  | error x => simp [outcome_readAndClose_of_error hclose, Except.mapError] at h
  | ok u =>
    rw [outcome_readAndClose_of_ok hclose] at h
    cases houtcome : (s.read (-1)).outcome with
    | error x => simp [houtcome, Except.mapError] at h
    | ok read => simpa [houtcome, Except.mapError] using h

/-- A transformation depends on the source only if its options are accepted. -/
theorem outcome_transform_eq {source : σ} (h : Closes source) (o : Options) :
    (transform source o).outcome =
      match Engine.configure {} o with
      | .error x => .error (.option x)
      | .ok e =>
        (({ ofSource source none with engine := e } : Stream σ).read (-1)).outcome.mapError
          .read := by
  unfold transform
  show (match Engine.configure {} o with | .error _ => _ | .ok _ => _ : Transformed σ).outcome = _
  cases Engine.configure {} o with
  | error x =>
    have hclose : (ofSource source none).close.outcome = .ok () := h 0
    simp only [hclose]
    rfl
  | ok e =>
    let s : Stream σ := { ofSource source none with engine := e }
    exact congrArg (Except.mapError TransformError.read) (outcome_readAndClose (s := s) h)

/-- **A stream over a stream** reads what a transformation of the complete output of the inner one
gives. -/
theorem read_over {before : σ} {first second : Options} {e e' : Engine}
    (hfirst : Engine.configure {} first = .ok e) (h : (transform before first).outcome = .ok text)
    (hsecond : Engine.configure {} second = .ok e') :
    (({ ofSource ({ ofSource before none with engine := e } : Stream σ) none with
        engine := e' } : Stream (Stream σ)).read (-1)).outcome.mapError .read =
      (transform ({ rest := text, name := CharSource.name before } : TextSource)
        second).outcome := by
  let inner : Stream σ := { ofSource before none with engine := e }
  have hinner : (inner.read (-1)).outcome = .ok text := read_of_transform hfirst h
  have halike : Alike
      ({ ofSource ({ rest := text, name := CharSource.name before } : TextSource) none with
        engine := e' } : Stream TextSource)
      ({ ofSource inner none with engine := e' } : Stream (Stream σ)) :=
    ⟨rfl, rfl, rfl, Or.inr ((delivers_text text _).agree (delivers_of_read hinner))⟩
  rw [outcome_transform_eq (closes_text _), hsecond]
  exact congrArg (Except.mapError TransformError.read) (halike.read rfl)

/-- If the source of the inner stream can be closed, the second transformation may be applied to the
inner stream itself. -/
theorem transform_over {before : σ} {first : Options} {e : Engine} (hclose : Closes before)
    (hfirst : Engine.configure {} first = .ok e) (h : (transform before first).outcome = .ok text)
    (second : Options) :
    (transform { ofSource before none with engine := e } second).outcome =
      (transform ({ rest := text, name := CharSource.name before } : TextSource)
        second).outcome := by
  let inner : Stream σ := { ofSource before none with engine := e }
  have hinner : Closes inner := closes (s := inner) hclose
  rw [outcome_transform_eq hinner]
  cases hsecond : Engine.configure {} second with
  | error x =>
    rw [outcome_transform_eq (closes_text _), hsecond]
  | ok e' => exact read_over hfirst h hsecond

/-- **Only the characters matter**: over all sources that deliver a text the analyses are equal
after every request, and so are the answers, but for the name in an error.  A text in memory, an
open file, chunks that are cut anyhow and a stream that is read without an error are such sources,
so reading a stream through a stream is transforming its output.  Transforming the stream itself is
the same too, if what it reads from can be closed. -/
theorem after_of_delivers (l : Layout) (rules : List Rule) (text : List CodePoint) :
    (∀ {σ : Type} [CharSource σ] (source : σ) (name other : Option String) (n : Nat),
      Delivers source text →
        let s := start source name l rules
        let t := start ({ rest := text } : TextSource) other l rules
        (s.after n).engine = (t.after n).engine ∧
          (s.after n).next.outcome.mapError ReadError.unnamed =
            (t.after n).next.outcome.mapError ReadError.unnamed) ∧
      (∀ name, Delivers ({ rest := text, name := name } : TextSource) text) ∧
      (∀ name, Delivers ({ rest := text, name := name } : FileSource) text) ∧
      (∀ (chunks : List (List CodePoint)) (name : Option String), chunks.flatten = text →
        Delivers ({ producer := { chunks := chunks.map .text }, name := name } : ChunkSource)
          text) ∧
      (∀ {σ : Type} [CharSource σ] (inner : Stream σ), (inner.read (-1)).outcome = .ok text →
        Delivers inner text) ∧
      ∀ {σ : Type} [CharSource σ] (before : σ) (first second : Options) (e : Engine),
        Engine.configure {} first = .ok e → (transform before first).outcome = .ok text →
          let inner : Stream σ := { ofSource before none with engine := e }
          let output : TextSource := { rest := text, name := CharSource.name before }
          (∀ e', Engine.configure {} second = .ok e' →
            (({ ofSource inner none with engine := e' }).read (-1)).outcome.mapError .read =
              (transform output second).outcome) ∧
          (Closes before →
            (transform inner second).outcome = (transform output second).outcome) := by
  refine ⟨?_, delivers_text text, delivers_file text, ?_, ?_, ?_⟩
  · intro σ _ source name other n hsource s t
    have halike : Alike t s := alike_start (delivers_text text none) hsource other name l rules
    exact ⟨(halike.after n).engine_eq, (halike.after n).next.2.1⟩
  · intro chunks name hchunks
    rw [← hchunks]
    exact delivers_chunks [] chunks false name
  · intro σ _ inner hread
    exact delivers_of_read hread
  · intro σ _ before first second e hfirst hread inner output
    exact ⟨fun e' hsecond => read_over hfirst hread hsecond,
      fun hclose => transform_over hclose hfirst hread second⟩

/-- An indented text in chunks, one of them empty. -/
def choppedText : ChunkSource :=
  { producer := { chunks := ["a\n ".codePoints, [], " b\nc".codePoints].map .text } }

/-- The marks of its blocks are put in, and their whitespace is kept. -/
def keepOptions : Options := { keepWhitespace := some (.bool true) }

/-- What that gives. -/
def markedText : List CodePoint := "a\n>  b\n<c".codePoints

/-- The marked text is read through a second stream as if it were at hand. -/
theorem after_of_choppedText :
    let inner : Stream ChunkSource := start choppedText none { keepWhitespace := true } []
    Closes choppedText ∧ Delivers choppedText "a\n  b\nc".codePoints ∧ Delivers inner markedText ∧
      ((start inner none { whitespace := ['>', ' '] } []).after 5).engine =
        ((start ({ rest := markedText } : TextSource) (some "text")
          { whitespace := ['>', ' '] } []).after 5).engine ∧
      (transform inner {}).outcome =
        (transform ({ rest := markedText } : TextSource) {}).outcome := by
  intro inner
  have hconfigure : Engine.configure {} keepOptions =
      .ok (.fresh { keepWhitespace := true } []) := rfl
  have hread : (inner.read (-1)).outcome = .ok markedText := by decide +kernel
  have hclose : Closes choppedText := fun _ => rfl
  have hmarked : (transform choppedText keepOptions).outcome = .ok markedText := by
    rw [outcome_transform_eq hclose, hconfigure]
    exact congrArg (Except.mapError TransformError.read) hread
  obtain ⟨-, -, -, hchunks, -, -⟩ := after_of_delivers {} [] "a\n  b\nc".codePoints
  obtain ⟨hafter, -, -, -, hdelivers, htransform⟩ :=
    after_of_delivers { whitespace := ['>', ' '] } [] markedText
  refine ⟨hclose, hchunks _ none rfl, hdelivers inner hread, ?_, ?_⟩
  · exact (hafter inner none (some "text") 5 (hdelivers inner hread)).1
  · exact (htransform choppedText keepOptions {} _ hconfigure hmarked).2 hclose

end Stream

end Offside
