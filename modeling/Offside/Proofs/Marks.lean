import Offside.Proofs.Balance
import Offside.Source.Text

/-!
# Marks told by their characters

Whoever reads a stream sees characters and not their roles.  If the two mark characters are
distinct and the source has none of them, the marks can be told by their characters for as long as
they are not changed, and the balance can be checked from outside.

## Main definitions

* `CharSource.Avoids` — a source never answers with a character.
* `Token.Spelled` — a token shows its role by its character.
* `Stream.Faithful` — all marks of a stream can be told.
* `Stream.Checks` — what can be checked from outside.

## Main results

* `Stream.invariant_faithful` — marks can be told at all times.
* `Stream.run_balanced` — **the balance of a run.**
-/

namespace Offside

/-! ### Sources without a character -/

namespace CharSource

variable {σ : Type} [CharSource σ] {s t : σ} {c : CodePoint}

/-- What a source may become. -/
inductive Reaches : σ → σ → Prop where
  | refl (s : σ) : Reaches s s
  | pull {s t : σ} (h : Reaches (CharSource.pull s).next t) : Reaches s t
  | close {s t : σ} (h : Reaches (CharSource.close s).next t) : Reaches s t

/-- The source never answers with the character `c`. -/
def Avoids (s : σ) (c : CodePoint) : Prop :=
  ∀ t, Reaches s t → (CharSource.pull t).outcome ≠ .ok (some c)

theorem Avoids.pull (h : Avoids s c) : Avoids (CharSource.pull s).next c :=
  fun t ht => h t (.pull ht)

theorem Avoids.close (h : Avoids s c) : Avoids (CharSource.close s).next c :=
  fun t ht => h t (.close ht)

/-- A text avoids what it does not contain. -/
theorem avoids_text {s : TextSource} (h : c ∉ s.rest) : Avoids s c := by
  intro t ht
  induction ht with
  | refl s =>
    simp only [CharSource.pull, TextSource.pull]
    split
    · simp
    · next d rest heq =>
      intro hd
      rw [Except.ok.injEq, Option.some.injEq] at hd
      exact h (by simp [heq, hd])
  | @pull s t _ ih =>
    refine ih fun hmem => h ?_
    simp only [CharSource.pull, TextSource.pull] at hmem
    split at hmem
    · next heq => simp [heq] at hmem
    · next d rest heq =>
      rw [heq]
      exact List.mem_cons_of_mem _ hmem
  | close _ ih => exact ih (by simp [CharSource.close])

end CharSource

/-! ### Marks told by their characters -/

/-- A token has a mark character if and only if it is a mark of that kind. -/
def Token.Spelled (opening closing : CodePoint) (t : Token) : Prop :=
  (t.role = .indent ↔ t.char = opening) ∧ (t.role = .dedent ↔ t.char = closing)

namespace Token

variable {a b : CodePoint}

theorem spelled_content {c : CodePoint} (ha : c ≠ a) (hb : c ≠ b) : (content c).Spelled a b := by
  simp [Spelled, ha, hb]

theorem spelled_indent (hab : a ≠ b) : Spelled a b ⟨.indent, a⟩ := by
  simp [Spelled, hab]

theorem spelled_dedent (hab : a ≠ b) : Spelled a b ⟨.dedent, b⟩ := by
  simp [Spelled, hab.symm]

/-- The marks of opening blocks are counted by their character. -/
theorem count_indent {tokens : List Token} (h : ∀ t ∈ tokens, t.Spelled a b) :
    (text tokens).count a = tokens.countP (·.role = .indent) := by
  rw [text, List.count, List.countP_map]
  refine List.countP_congr fun t ht => ?_
  simp [(h t ht).1]

/-- The marks of closing blocks are counted by their character. -/
theorem count_dedent {tokens : List Token} (h : ∀ t ∈ tokens, t.Spelled a b) :
    (text tokens).count b = tokens.countP (·.role = .dedent) := by
  rw [text, List.count, List.countP_map]
  refine List.countP_congr fun t ht => ?_
  simp [(h t ht).2]

end Token

/-- The marks of a line can be told by their characters. -/
theorem Layout.spelled_of_mem_marks {l : Layout} {before after : Nat} {t : Token}
    (hab : l.indentMark ≠ l.dedentMark) (ht : t ∈ l.marks before after) :
    t.Spelled l.indentMark l.dedentMark := by
  rw [marks] at ht
  split at ht
  · rw [List.mem_singleton.1 ht]
    exact Token.spelled_indent hab
  · rw [List.eq_of_mem_replicate ht]
    exact Token.spelled_dedent hab

namespace Engine

/-- The marks that are queued, and those that will be, can be told by their characters. -/
structure Spells (opening closing : CodePoint) (e : Engine) : Prop where
  indentMark_eq : e.layout.indentMark = opening
  dedentMark_eq : e.layout.dedentMark = closing
  queued : ∀ t, some t ∈ e.queue → t.Spelled opening closing

variable {a b c : CodePoint} {e e' : Engine}

theorem Spells.dedentToken (h : e.Spells a b) (hab : a ≠ b) : e.dedentToken.Spelled a b := by
  rw [Engine.dedentToken, h.dedentMark_eq]
  exact Token.spelled_dedent hab

theorem Spells.arrive (h : e.Spells a b) (c : CodePoint) : (e.arrive c).Spells a b where
  indentMark_eq := by rw [layout_arrive, h.indentMark_eq]
  dedentMark_eq := by rw [layout_arrive, h.dedentMark_eq]
  queued t ht := h.queued t (by rwa [queue_arrive] at ht)

theorem Spells.finish (h : e.Spells a b) : e.finish.Spells a b := ⟨h.1, h.2, h.3⟩

theorem Spells.enqueue (h : e.Spells a b) {entry : Option Token}
    (hentry : ∀ t, entry = some t → t.Spelled a b) : (e.enqueue entry).Spells a b where
  indentMark_eq := h.indentMark_eq
  dedentMark_eq := h.dedentMark_eq
  queued t ht := by
    rcases List.mem_append.1 ht with ht | ht
    · exact h.queued t ht
    · exact hentry t (List.mem_singleton.1 ht).symm

theorem Spells.hold (h : e.Spells a b) (ha : c ≠ a) (hb : c ≠ b) :
    (e.enqueue (some (.content c))).Spells a b := by
  refine h.enqueue fun t ht => ?_
  rw [← Option.some.inj ht]
  exact Token.spelled_content ha hb

theorem Spells.release {file : Option String} {notices : List Notice} (h : e.Spells a b)
    (hab : a ≠ b) (ha : c ≠ a) (hb : c ≠ b) (hc : ¬ e.holds c = true)
    (he : e.release file c = .ok (e', notices)) : e'.Spells a b := by
  rcases passes_or_decides hc with hpass | hdec
  · rw [release_of_passes hpass] at he
    obtain ⟨rfl, -⟩ : _ ∧ _ := by simpa using he
    have hobserve : (e.observe c).Spells a b := ⟨h.1, h.2, h.3⟩
    exact hobserve.hold ha hb
  · rw [release_of_decides hdec, settle_eq] at he
    cases hstack : e.stack.advance? e.lead with
    | none => simp [hstack] at he
    | some stack =>
      obtain ⟨rfl, -⟩ : _ ∧ _ := by simpa [hstack] using he
      refine ⟨h.1, h.2, fun t ht => ?_⟩
      rw [Engine.place] at ht
      rcases List.mem_append.1 ht with ht | ht
      · rcases List.mem_append.1 ht with ht | ht
        · have hmem : t ∈ e.layout.marks e.depth stack.depth := by simpa using ht
          rw [← h.indentMark_eq, ← h.dedentMark_eq] at hab ⊢
          exact Layout.spelled_of_mem_marks hab hmem
        · split at ht
          · exact h.queued t ht
          · simp at ht
      · rw [Option.some.inj (List.mem_singleton.1 ht)]
        exact Token.spelled_content ha hb

/-- What is taken off the queue can be told, and so can what is left. -/
theorem Spells.dequeue (h : e.Spells a b) :
    e.dequeue.2.Spells a b ∧ ∀ t, e.dequeue.1 = some t → t.Spelled a b := by
  rw [Engine.dequeue]
  cases hq : e.queue with
  | nil => exact ⟨h, by simp⟩
  | cons entry rest =>
    refine ⟨⟨h.1, h.2, fun t ht => h.queued t ?_⟩, fun t ht => h.queued t ?_⟩
    · rw [hq]
      exact List.mem_cons_of_mem _ ht
    · rw [hq, ← ht]
      exact List.mem_cons_self

/-- What is handed out can be told, and so can what is queued at the end of the input. -/
theorem Spells.deliver (h : e.Spells a b) (hab : a ≠ b) {entry : Option Token}
    (hentry : ∀ t, entry = some t → t.Spelled a b) :
    (e.deliver entry).2.1.Spells a b ∧ ∀ t, (e.deliver entry).1 = some t → t.Spelled a b := by
  cases entry with
  | some t => exact ⟨⟨h.1, h.2, h.3⟩, hentry⟩
  | none =>
    rw [Engine.deliver, flush]
    split
    · exact ⟨h, by simp⟩
    · refine Spells.dequeue ⟨h.1, h.2, fun t ht => ?_⟩
      have hmem : some t ∈ e.queue ∨ (e.depth ≠ 0 ∧ t = e.dedentToken) := by simpa using ht
      rcases hmem with hmem | ⟨-, rfl⟩
      · exact h.queued t hmem
      · exact h.dedentToken hab

end Engine

namespace Stream

open Engine

/-- The marks can be told by their characters, in what was handed out, in what is queued and in
what is still to come. -/
structure Faithful {σ : Type} [CharSource σ] (opening closing : CodePoint) (seen : List Token)
    (s : Stream σ) : Prop where
  seen : ∀ t ∈ seen, t.Spelled opening closing
  engine : s.engine.Spells opening closing
  avoids_opening : CharSource.Avoids s.source opening
  avoids_closing : CharSource.Avoids s.source closing

variable {σ : Type} [CharSource σ] {s s' t : Stream σ} {seen : List Token}
  {outcome : Except ReadError (Option Token)} {a b c : CodePoint}

theorem faithful_handOut (h : Faithful a b seen s) (hab : a ≠ b) :
    Faithful a b (seen ++ tokensOf s.handOut.outcome) s.handOut.next := by
  obtain ⟨hrest, hentry⟩ := h.engine.dequeue
  obtain ⟨hlast, htoken⟩ := hrest.deliver hab hentry
  refine ⟨fun t ht => ?_, hlast, h.avoids_opening, h.avoids_closing⟩
  rcases List.mem_append.1 ht with ht | ht
  · exact h.seen t ht
  · refine htoken t ?_
    exact Except.ok.inj (mem_tokensOf ht)

/-- Asking the source keeps it from the marks, and so is the character that arrives. -/
theorem faithful_pull {o : Except ReadError (Option CodePoint)} {notices : List Notice}
    (h : Faithful a b seen s) (hpull : s.pull = ⟨o, s', notices⟩) :
    CharSource.Avoids s'.source a ∧ CharSource.Avoids s'.source b ∧
      ∀ c, o = .ok (some c) → c ≠ a ∧ c ≠ b := by
  obtain ⟨hsource, hchar⟩ := source_of_pull hpull
  refine ⟨?_, ?_, fun c hc => ⟨?_, ?_⟩⟩
  · rcases hsource with heq | heq <;> rw [heq]
    · exact h.avoids_opening
    · exact h.avoids_opening.pull
  · rcases hsource with heq | heq <;> rw [heq]
    · exact h.avoids_closing
    · exact h.avoids_closing.pull
  · rintro rfl
    exact h.avoids_opening _ (.refl _) (hchar c hc)
  · rintro rfl
    exact h.avoids_closing _ (.refl _) (hchar c hc)

theorem Request.faithful (hreq : Request s outcome t) (hab : a ≠ b) (h : Faithful a b seen s) :
    Faithful a b (seen ++ tokensOf outcome) t := by
  induction hreq with
  | fail hpull =>
    obtain ⟨ha, hb, -⟩ := faithful_pull h hpull
    rw [tokensOf_error, List.append_nil]
    exact ⟨h.seen, by rw [engine_of_pull_error hpull]; exact h.engine, ha, hb⟩
  | stop hpull =>
    obtain ⟨ha, hb, -⟩ := faithful_pull h hpull
    refine faithful_handOut ⟨h.seen, ?_, ha, hb⟩ hab
    refine Spells.enqueue ?_ (by simp)
    rcases engine_of_pull_none hpull with heq | heq
    · exact heq ▸ h.engine
    · exact heq ▸ h.engine.finish
  | @hold s s' t c notices outcome hpull hc hrest ih =>
    obtain ⟨ha, hb, hchar⟩ := faithful_pull h hpull
    obtain ⟨hca, hcb⟩ := hchar c rfl
    refine ih ⟨h.seen, ?_, ha, hb⟩
    rw [Stream.hold, (engine_of_pull hpull).1]
    exact (h.engine.arrive c).hold hca hcb
  | @release s s' c notices told e hpull hc he =>
    obtain ⟨ha, hb, hchar⟩ := faithful_pull h hpull
    obtain ⟨hca, hcb⟩ := hchar c rfl
    rw [(engine_of_pull hpull).1] at hc he
    exact faithful_handOut ⟨h.seen, (h.engine.arrive c).release hab hca hcb hc he, ha, hb⟩ hab
  | @misfit s s' c notices x hpull hc hx =>
    obtain ⟨ha, hb, -⟩ := faithful_pull h hpull
    rw [tokensOf_error, List.append_nil]
    refine ⟨h.seen, ?_, ha, hb⟩
    rw [(engine_of_pull hpull).1]
    exact h.engine.arrive c

theorem faithful_next (h : Faithful a b seen s) (hab : a ≠ b) :
    Faithful a b (seen ++ tokensOf s.next.outcome) s.next.next := by
  rcases s.next_cases with hnext | ⟨hq, hnext⟩ | ⟨hq, hreq⟩
  · rw [hnext, tokensOf_error, List.append_nil]
    exact h
  · rw [hnext]
    exact faithful_handOut h hab
  · exact hreq.faithful hab h

/-- **Marks can be told by their characters** for as long as they are not changed. -/
theorem invariant_faithful {l : Layout} (hab : l.indentMark ≠ l.dedentMark) :
    Invariant (Convention.KeepsMarks l.indentMark l.dedentMark)
      (Faithful l.indentMark l.dedentMark : List Token → Stream σ → Prop) where
  next h := faithful_next h hab
  close _ h := ⟨h.seen, h.engine, h.avoids_opening.close, h.avoids_closing.close⟩
  adopt {_ s convention} hallowed h := by
    obtain ⟨layout, tracker, heq⟩ := s.engine.alike_adopt convention
    rw [← h.engine.indentMark_eq, ← h.engine.dedentMark_eq] at hallowed
    obtain ⟨hopening, hclosing⟩ := sameMarks_adopt hallowed
    refine ⟨h.seen, ⟨?_, ?_, fun t ht => h.engine.queued t ?_⟩, h.avoids_opening, h.avoids_closing⟩
    · exact hopening.trans h.engine.indentMark_eq
    · exact hclosing.trans h.engine.dedentMark_eq
    · simpa [heq] using ht

/-! ### Runs -/

/-- A stream that has not been read. -/
def start (source : σ) (name : Option String) (l : Layout) (rules : List Rule) : Stream σ where
  source := source
  name := name
  engine := .fresh l rules

theorem faithful_start {source : σ} {l : Layout} (hopening : CharSource.Avoids source l.indentMark)
    (hclosing : CharSource.Avoids source l.dedentMark) (name : Option String) (rules : List Rule) :
    Faithful l.indentMark l.dedentMark [] (start source name l rules) where
  seen := by simp
  engine := ⟨rfl, rfl, by simp [start, fresh]⟩
  avoids_opening := hopening
  avoids_closing := hclosing

/-- The characters that mark opening blocks less those that mark closing blocks. -/
def net (opening closing : CodePoint) (tokens : List Token) : Int :=
  (Token.text tokens).count opening - (Token.text tokens).count closing

theorem net_eq_balance (h : ∀ t ∈ seen, t.Spelled a b) : net a b seen = Token.balance seen := by
  rw [net, Token.count_indent h, Token.count_dedent h, Token.balance]

/-- What can be checked by whoever has read `seen` from the stream. -/
structure Checks (opening closing : CodePoint) (seen : List Token) (s : Stream σ) : Prop where
  net_eq : net opening closing seen = s.engine.depth + (Token.text s.engine.due).count closing
  nonneg : 0 ≤ net opening closing seen
  last : ∀ t, seen.getLast? = some t → t.char ≠ opening → t.char ≠ closing →
    net opening closing seen = s.engine.depth
  ended : s.next.outcome = .ok none → net opening closing seen = 0

/-- What is accounted for can be checked. -/
theorem Faithful.checks (hfaithful : Faithful a b seen s) (h : Account seen s.engine) :
    Checks a b seen s := by
  have hnet := net_eq_balance hfaithful.seen
  have hbalance := h.balance_eq
  obtain ⟨marks, chars, ⟨⟨ending, hending, hq⟩, hchars⟩, hmarks, hlast⟩ := h.backlog
  have hdue : s.engine.due = marks ++ chars := by
    rw [due, hq, List.reduceOption_append]
    rcases hending with rfl | rfl <;> simp [List.reduceOption]
  -- marks of closing blocks are queued at most, and each of them is seen as one
  have hqueued : Token.balance s.engine.due = -(Token.text s.engine.due).count b := by
    have hspelled : ∀ x ∈ s.engine.due, x.Spelled a b := by
      intro x hx
      rw [hdue] at hx
      refine hfaithful.engine.queued x ?_
      rw [hq]
      exact List.mem_append_left _ (List.mem_map.2 ⟨x, hx, rfl⟩)
    have hindent : s.engine.due.countP (·.role = .indent) = 0 := by
      rw [hdue, List.countP_eq_zero]
      intro x hx
      rcases List.mem_append.1 hx with hx | hx
      · simp [hmarks x hx]
      · simp [hchars x hx]
    rw [Token.count_dedent hspelled, Token.balance, hindent]
    omega
  have heq : net a b seen = s.engine.depth + (Token.text s.engine.due).count b := by omega
  refine ⟨heq, by omega, fun x hx hxa hxb => ?_, fun hnone => ?_⟩
  · -- if marks were queued, the last token would be one of them
    have hnil : marks = [] := by
      by_contra hne
      obtain ⟨y, hy, hrole⟩ := hlast hne
      rw [hx, Option.some.injEq] at hy
      subst hy
      exact hxb ((hfaithful.seen x (List.mem_of_getLast? hx)).2.1 hrole)
    rw [hdue, hnil, List.nil_append, Token.balance_of_content hchars] at hbalance
    omega
  · -- after the end no level is open and nothing is queued
    obtain ⟨haccount, hended⟩ := account_next h
    have hend := haccount.balance_eq
    obtain ⟨hdepth, hqueue⟩ := hended hnone
    rw [hnone, tokensOf_none, List.append_nil, hdepth, due, hqueue] at hend
    simp only [List.reduceOption_nil, Token.balance_nil] at hend
    omega

/-- **The balance of a run.**  Whatever is done to a stream in whatever order, the marks that were
queued are counted by the open levels.  If the marks are distinct, are not changed and do not occur
in the source, those that were delivered are counted by the open levels and the marks still
queued. -/
theorem run_balanced (source : σ) (name : Option String) (l : Layout) (rules : List Rule)
    (ops : List Operation) :
    (((start source name l rules).run ops).2.engine.indents : Int) -
        ((start source name l rules).run ops).2.engine.dedents =
        ((start source name l rules).run ops).2.engine.depth ∧
      (l.indentMark ≠ l.dedentMark →
        CharSource.Avoids source l.indentMark → CharSource.Avoids source l.dedentMark →
        (∀ op ∈ ops, op.Within (Convention.KeepsMarks l.indentMark l.dedentMark)) →
        Checks l.indentMark l.dedentMark ((start source name l rules).run ops).1
          ((start source name l rules).run ops).2) := by
  have haccount : Account ([] ++ ((start source name l rules).run ops).1)
      ((start source name l rules).run ops).2.engine :=
    invariant_account.run (account_fresh l rules) fun op _ => by cases op <;> exact trivial
  rw [List.nil_append] at haccount
  refine ⟨?_, fun hab hopening hclosing hops => ?_⟩
  · have := haccount.counted
    omega
  · have hfaithful :=
      (invariant_faithful hab).run (faithful_start hopening hclosing name rules) hops
    rw [List.nil_append] at hfaithful
    exact hfaithful.checks haccount

/-- Two blocks and a malformed line. -/
def brokenSource : TextSource := { rest := "a\n b\n  c\n\td\n e".codePoints }

/-- A token, a refused mark, a size that is none, all tokens up to the malformed line, other
whitespace, the source given up, and all tokens again. -/
def roughHandling : List Operation :=
  [.next, .adopt (.indentMark (.text "->")), .read (.text "all"), .iterate,
    .adopt (.removeWhitespace [.text " "]), .closeSource, .iterate]

theorem checks_roughHandling :
    (Layout.indentMark {} ≠ Layout.dedentMark {} ∧
      CharSource.Avoids brokenSource (Layout.indentMark {}) ∧
      CharSource.Avoids brokenSource (Layout.dedentMark {}) ∧
      ∀ op ∈ roughHandling,
        op.Within (Convention.KeepsMarks (Layout.indentMark {}) (Layout.dedentMark {}))) ∧
      Checks (Layout.indentMark {}) (Layout.dedentMark {})
        ((start brokenSource none {} []).run roughHandling).1
        ((start brokenSource none {} []).run roughHandling).2 := by
  have hab : Layout.indentMark {} ≠ Layout.dedentMark {} := by decide
  have hopening : CharSource.Avoids brokenSource (Layout.indentMark {}) :=
    CharSource.avoids_text (by decide)
  have hclosing : CharSource.Avoids brokenSource (Layout.dedentMark {}) :=
    CharSource.avoids_text (by decide)
  have hops : ∀ op ∈ roughHandling,
      op.Within (Convention.KeepsMarks (Layout.indentMark {}) (Layout.dedentMark {})) := by
    have hwide : "->".codePoints = [.char '-', .char '>'] := by decide +kernel
    simp [roughHandling, Operation.Within, Convention.KeepsMarks, Value.single, Value.char?, hwide]
  exact ⟨⟨hab, hopening, hclosing, hops⟩,
    (run_balanced brokenSource none {} [] roughHandling).2 hab hopening hclosing hops⟩

end Stream

end Offside
