import Offside.Proofs.Request
import Offside.Transform

/-!
# Options that are accepted

Options come by name and untyped.  A convention that is not given is the usual one, and one that
is given has to be spelled by its value: a mark by a single character, the whitespace by any value
whose parts are single characters, the pairs by a value whose parts are two characters each.  If
all of them are, the analysis starts with just these conventions, and with the rules for the rest
of a line before the pairs.

## Main definitions

* `Value.Spells`, `Value.SpellsPairs` — what the parts of a value stand for.
* `Options.Asks` — the conventions and rules that some options ask for.

## Main results

* `Options.Asks.configure` — what is asked for is put in force.
* `Engine.configure_eq_ok_iff` — no other options are accepted.
* `Options.Asks.transform`, `Options.Asks.transform_text` — a whole source is read under what is
  asked for, and closed; and a text is just read.
-/

namespace Offside

/-! ### Values that spell characters -/

namespace Value

/-- The parts of the value are these characters. -/
def Spells (v : Value) (cs : List CodePoint) : Prop :=
  ∃ items, v.items? = some items ∧ items.map char? = cs.map some

/-- Each part of the value is one of these pairs of characters. -/
def SpellsPairs (v : Value) (pairs : List (CodePoint × CodePoint)) : Prop :=
  ∃ items, v.items? = some items ∧ List.Forall₂ (fun item p => item.Spells [p.1, p.2]) items pairs

theorem spells_text (cs : List CodePoint) : (text cs).Spells cs := by
  refine ⟨cs.map fun c => text [c], ?_, ?_⟩
  · simp [items?]
  · simp [Function.comp_def]

theorem single_of_char? {v : Value} {c : CodePoint} (h : v.char? = some c) (use : CharUse) :
    v.single use = .ok c := by
  rw [single, h]

theorem char?_of_single {v : Value} {use : CharUse} {c : CodePoint} (h : v.single use = .ok c) :
    v.char? = some c := by
  rw [single] at h
  cases hchar : v.char? with
  | none => simp [hchar] at h
  | some d => simpa [hchar] using h

end Value

/-! ### What options ask for -/

/-- The conventions and the escape rules that some options ask for. -/
structure Options.Asks (o : Options) (l : Layout) (rules : List Rule) : Prop where
  indentMark : o.indentMark.elim (some (Layout.indentMark {})) Value.char? = some l.indentMark
  dedentMark : o.dedentMark.elim (some (Layout.dedentMark {})) Value.char? = some l.dedentMark
  newline : o.newline.elim (some (Layout.newline {})) Value.char? = some l.newline
  keepWhitespace : o.keepWhitespace.elim (Layout.keepWhitespace {}) Value.truthy = l.keepWhitespace
  whitespace : o.whitespace.elim (Layout.whitespace {} = l.whitespace) fun v =>
    ∃ cs, v.Spells cs ∧ cs.foldl (fun ws c => ws.insert c) [] = l.whitespace
  rules : ∃ line pairs, o.lineEscapes.elim (line = []) (·.Spells line) ∧
    o.pairedEscapes.elim (pairs = []) (·.SpellsPairs pairs) ∧
    rules = line.map (⟨·, l.newline⟩) ++ pairs.map fun p => ⟨p.1, p.2⟩

namespace Engine

variable {e : Engine} {items : List Value} {cs : List CodePoint}
  {pairs : List (CodePoint × CodePoint)}

/-! ### One convention after the other -/

/-- The analysis with another set of whitespace characters. -/
def withWhitespace (e : Engine) (ws : List CodePoint) : Engine :=
  { e with layout := { e.layout with whitespace := ws } }

/-- The analysis with more escape rules. -/
def withRules (e : Engine) (rules : List Rule) : Engine :=
  { e with tracker := { e.tracker with rules := e.tracker.rules ++ rules } }

theorem addWhitespace_of_map (h : items.map Value.char? = cs.map some) :
    e.addWhitespace items =
      (e.withWhitespace (cs.foldl (fun ws c => ws.insert c) e.layout.whitespace), none) := by
  induction items generalizing e cs with
  | nil =>
    obtain rfl : cs = [] := by simpa using h.symm
    rfl
  | cons v items ih =>
    cases cs with
    | nil => simp at h
    | cons c cs =>
      rw [List.map_cons, List.map_cons, List.cons.injEq] at h
      rw [addWhitespace, Value.single_of_char? h.1]
      exact ih h.2

theorem addPaired_of_char? {opening closing : Value} {p : CodePoint × CodePoint}
    (hopening : opening.char? = some p.1) (hclosing : closing.char? = some p.2) :
    e.addPaired opening closing = .ok (e.withRules [⟨p.1, p.2⟩]) := by
  simp [addPaired, Rule.ofValues, Value.single_of_char? hopening, Value.single_of_char? hclosing,
    Except.map, addRule, Tracker.add, withRules]

theorem addLine_of_char? {v : Value} {c : CodePoint} (h : v.char? = some c) :
    e.addLine v = .ok (e.withRules [⟨c, e.layout.newline⟩]) :=
  addPaired_of_char? (p := (c, e.layout.newline)) h (Value.char?_text_singleton _)

/-- Rules for the rest of a line are registered in order, whatever a refusal would be turned
into. -/
theorem foldlM_addLine_of_map {ε : Type} (wrap : NotSingle → ε)
    (h : items.map Value.char? = cs.map some) :
    items.foldlM (fun e opening => (e.addLine opening).mapError wrap) e =
      .ok (e.withRules (cs.map (⟨·, e.layout.newline⟩))) := by
  induction items generalizing e cs with
  | nil =>
    obtain rfl : cs = [] := by simpa using h.symm
    simp [withRules, pure, Except.pure]
  | cons v items ih =>
    cases cs with
    | nil => simp at h
    | cons c cs =>
      rw [List.map_cons, List.map_cons, List.cons.injEq] at h
      rw [List.foldlM_cons, addLine_of_char? h.1]
      refine (ih h.2).trans ?_
      simp [withRules]

theorem addPair_of_spells {v : Value} {p : CodePoint × CodePoint} (h : v.Spells [p.1, p.2]) :
    e.addPair v = .ok (e.withRules [⟨p.1, p.2⟩]) := by
  obtain ⟨items, hitems, hchars⟩ := h
  obtain ⟨a, b, rfl⟩ : ∃ a b, items = [a, b] :=
    List.length_eq_two.1 (by simpa using congrArg List.length hchars)
  obtain ⟨ha, hb⟩ : a.char? = some p.1 ∧ b.char? = some p.2 := by simpa using hchars
  rw [addPair, hitems]
  simp only [addPaired_of_char? ha hb]
  rfl

theorem foldlM_addPair_of_forall₂
    (h : List.Forall₂ (fun item p => Value.Spells item [p.1, p.2]) items pairs) :
    items.foldlM addPair e = .ok (e.withRules (pairs.map fun p => ⟨p.1, p.2⟩)) := by
  induction h generalizing e with
  | nil => simp [withRules, pure, Except.pure]
  | cons hp hrest ih =>
    rw [List.foldlM_cons, addPair_of_spells hp]
    refine ih.trans ?_
    simp [withRules]

/-! ### Conventions that may be given -/

/-- An option is applied if the value that is given for it is accepted. -/
theorem given_eq_ok {e' : Engine} {option : Option Value}
    {set : Engine → Value → Except OptionError Engine} (hnone : option = none → e = e')
    (hsome : ∀ v, option = some v → set e v = .ok e') : e.given option set = .ok e' := by
  cases option with
  | none => exact congrArg Except.ok (hnone rfl)
  | some v => exact hsome v rfl

/-- A single character is put in force, whichever convention it is for. -/
theorem given_char (use : CharUse) (set : Engine → CodePoint → Engine) {option : Option Value}
    {usual c : CodePoint} (husual : set e usual = e)
    (h : option.elim (some usual) Value.char? = some c) :
    e.given option (fun e v => ((v.single use).map (set e)).mapError .notSingle) =
      .ok (set e c) := by
  refine given_eq_ok (fun hnone => ?_) fun v hsome => ?_
  · obtain rfl : usual = c := by simpa [hnone] using h
    exact husual.symm
  · rw [hsome] at h
    simp only [Value.single_of_char? h]
    rfl

theorem given_keepWhitespace {option : Option Value} {keep : Bool}
    (h : option.elim e.layout.keepWhitespace Value.truthy = keep) :
    e.given option (fun e v => .ok (e.setKeepWhitespace v)) =
      .ok { e with layout := { e.layout with keepWhitespace := keep } } := by
  refine given_eq_ok (fun hnone => ?_) fun v hsome => ?_
  · rw [hnone] at h
    rw [← h]
    rfl
  · rw [hsome] at h
    rw [← h]
    rfl

theorem given_whitespace {option : Option Value} {ws : List CodePoint}
    (h : option.elim (e.layout.whitespace = ws) fun v =>
      ∃ cs, v.Spells cs ∧ cs.foldl (fun ws c => ws.insert c) [] = ws) :
    e.given option replaceWhitespace = .ok (e.withWhitespace ws) := by
  refine given_eq_ok (fun hnone => ?_) fun v hsome => ?_
  · rw [hnone] at h
    rw [← show e.layout.whitespace = ws from h]
    rfl
  · rw [hsome] at h
    obtain ⟨cs, ⟨items, hitems, hchars⟩, rfl⟩ := h
    simp only [replaceWhitespace, hitems, addWhitespace_of_map hchars]
    rfl

theorem given_lineEscapes {option : Option Value} {line : List CodePoint}
    (h : option.elim (line = []) (·.Spells line)) :
    e.given option (fun e v => do
      (← parts v).foldlM (fun e opening => (e.addLine opening).mapError .notSingle) e) =
      .ok (e.withRules (line.map (⟨·, e.layout.newline⟩))) := by
  refine given_eq_ok (fun hnone => ?_) fun v hsome => ?_
  · rw [hnone] at h
    rw [show line = [] from h]
    simp [withRules]
  · rw [hsome] at h
    obtain ⟨items, hitems, hchars⟩ := h
    simp only [parts, hitems]
    exact foldlM_addLine_of_map OptionError.notSingle hchars

theorem given_pairedEscapes {option : Option Value} {pairs : List (CodePoint × CodePoint)}
    (h : option.elim (pairs = []) (·.SpellsPairs pairs)) :
    e.given option (fun e v => do (← parts v).foldlM addPair e) =
      .ok (e.withRules (pairs.map fun p => ⟨p.1, p.2⟩)) := by
  refine given_eq_ok (fun hnone => ?_) fun v hsome => ?_
  · rw [hnone] at h
    rw [show pairs = [] from h]
    simp [withRules]
  · rw [hsome] at h
    obtain ⟨items, hitems, hall⟩ := h
    simp only [parts, hitems]
    exact foldlM_addPair_of_forall₂ hall

/-! ### What is accepted -/

theorem exists_of_bind_eq_ok {ε α β : Type} {x : Except ε α} {f : α → Except ε β} {b : β}
    (h : x >>= f = .ok b) : ∃ a, x = .ok a ∧ f a = .ok b := by
  cases x with
  | error e => cases h
  | ok a => exact ⟨a, rfl, h⟩

variable {e' : Engine} {option : Option Value}

theorem items?_of_parts {v : Value} (h : parts v = .ok items) : v.items? = some items := by
  rw [parts] at h
  cases hitems : v.items? with
  | none => simp [hitems] at h
  | some items' => simpa [hitems] using h

/-- An option that is accepted was not given, or its value is accepted. -/
theorem given_cases {set : Engine → Value → Except OptionError Engine}
    (h : e.given option set = .ok e') :
    option = none ∨ ∃ v, option = some v ∧ set e v = .ok e' := by
  cases option with
  | none => exact Or.inl rfl
  | some v => exact Or.inr ⟨v, rfl, h⟩

theorem exists_of_given_char {use : CharUse} {set : Engine → CodePoint → Engine} (usual : CodePoint)
    (h : e.given option (fun e v => ((v.single use).map (set e)).mapError .notSingle) = .ok e') :
    ∃ c, option.elim (some usual) Value.char? = some c := by
  rcases given_cases h with rfl | ⟨v, rfl, hset⟩
  · exact ⟨usual, rfl⟩
  · cases hsingle : v.single use with
    | error refusal => simp [hsingle, Except.map, Except.mapError] at hset
    | ok c => exact ⟨c, Value.char?_of_single hsingle⟩

theorem exists_of_addWhitespace (h : e.addWhitespace items = (e', none)) :
    ∃ cs : List CodePoint, items.map Value.char? = cs.map some := by
  induction items generalizing e with
  | nil => exact ⟨[], rfl⟩
  | cons v items ih =>
    rw [addWhitespace] at h
    cases hsingle : v.single .whitespace with
    | error refusal => simp [hsingle] at h
    | ok c =>
      rw [hsingle] at h
      obtain ⟨cs, hcs⟩ := ih h
      exact ⟨c :: cs, by rw [List.map_cons, hcs, Value.char?_of_single hsingle, List.map_cons]⟩

theorem exists_of_given_whitespace (usual : List CodePoint)
    (h : e.given option replaceWhitespace = .ok e') :
    ∃ ws, option.elim (usual = ws) fun v =>
      ∃ cs, v.Spells cs ∧ cs.foldl (fun ws c => ws.insert c) [] = ws := by
  rcases given_cases h with rfl | ⟨v, rfl, hset⟩
  · exact ⟨usual, rfl⟩
  · rw [replaceWhitespace] at hset
    cases hitems : v.items? with
    | none => simp [hitems] at hset
    | some items =>
      rcases hadd : e.clearWhitespace.addWhitespace items with ⟨e₁, _ | refusal⟩
      · obtain ⟨cs, hcs⟩ := exists_of_addWhitespace hadd
        exact ⟨_, cs, ⟨items, hitems, hcs⟩, rfl⟩
      · simp [hitems, hadd] at hset

theorem exists_of_foldlM_addLine
    (h : items.foldlM (fun e opening => (e.addLine opening).mapError OptionError.notSingle) e =
      .ok e') : ∃ cs : List CodePoint, items.map Value.char? = cs.map some := by
  induction items generalizing e with
  | nil => exact ⟨[], rfl⟩
  | cons v items ih =>
    rw [List.foldlM_cons] at h
    obtain ⟨e₁, hadd, hrest⟩ := exists_of_bind_eq_ok h
    obtain ⟨cs, hcs⟩ := ih hrest
    cases hsingle : v.single .opening with
    | error refusal =>
      simp [addLine, addPaired, Rule.ofValues, hsingle, Except.map, Except.mapError] at hadd
    | ok c =>
      exact ⟨c :: cs, by rw [List.map_cons, hcs, Value.char?_of_single hsingle, List.map_cons]⟩

theorem exists_of_given_lineEscapes
    (h : e.given option (fun e v => do
      (← parts v).foldlM (fun e opening => (e.addLine opening).mapError .notSingle) e) = .ok e') :
    ∃ line : List CodePoint, option.elim (line = []) (·.Spells line) := by
  rcases given_cases h with rfl | ⟨v, rfl, hset⟩
  · exact ⟨[], rfl⟩
  · obtain ⟨items, hparts, hadd⟩ := exists_of_bind_eq_ok hset
    obtain ⟨cs, hcs⟩ := exists_of_foldlM_addLine hadd
    exact ⟨cs, items, items?_of_parts hparts, hcs⟩

theorem exists_of_addPair {v : Value} (h : e.addPair v = .ok e') :
    ∃ p : CodePoint × CodePoint, v.Spells [p.1, p.2] := by
  rw [addPair] at h
  split at h
  · simp at h
  · next opening closing hitems =>
    cases hopening : opening.single .opening with
    | error refusal =>
      simp [addPaired, Rule.ofValues, hopening, Except.map, Except.mapError] at h
    | ok a =>
      cases hclosing : closing.single .closing with
      | error refusal =>
        simp [addPaired, Rule.ofValues, hopening, hclosing, Except.map, Except.mapError] at h
      | ok b =>
        refine ⟨(a, b), [opening, closing], hitems, ?_⟩
        simp [Value.char?_of_single hopening, Value.char?_of_single hclosing]
  · split at h <;> simp at h

theorem exists_of_foldlM_addPair (h : items.foldlM addPair e = .ok e') :
    ∃ pairs : List (CodePoint × CodePoint),
      List.Forall₂ (fun item p => Value.Spells item [p.1, p.2]) items pairs := by
  induction items generalizing e with
  | nil => exact ⟨[], .nil⟩
  | cons v items ih =>
    rw [List.foldlM_cons] at h
    obtain ⟨e₁, hadd, hrest⟩ := exists_of_bind_eq_ok h
    obtain ⟨p, hp⟩ := exists_of_addPair hadd
    obtain ⟨pairs, hpairs⟩ := ih hrest
    exact ⟨p :: pairs, .cons hp hpairs⟩

theorem exists_of_given_pairedEscapes
    (h : e.given option (fun e v => do (← parts v).foldlM addPair e) = .ok e') :
    ∃ pairs : List (CodePoint × CodePoint), option.elim (pairs = []) (·.SpellsPairs pairs) := by
  rcases given_cases h with rfl | ⟨v, rfl, hset⟩
  · exact ⟨[], rfl⟩
  · obtain ⟨items, hparts, hadd⟩ := exists_of_bind_eq_ok hset
    obtain ⟨pairs, hpairs⟩ := exists_of_foldlM_addPair hadd
    exact ⟨pairs, items, items?_of_parts hparts, hpairs⟩

end Engine

/-! ### All conventions -/

namespace Options.Asks

open Engine

variable {o : Options} {l : Layout} {rules : List Rule}

/-- **What is asked for is put in force.** -/
theorem configure (h : o.Asks l rules) : Engine.configure {} o = .ok (.fresh l rules) := by
  obtain ⟨line, pairs, hline, hpairs, rfl⟩ := h.rules
  -- the conventions are set one after the other, and each leaves the others alone
  let marked : Layout := { indentMark := l.indentMark, dedentMark := l.dedentMark }
  let ended : Layout := { marked with newline := l.newline }
  let kept : Layout := { ended with keepWhitespace := l.keepWhitespace }
  have hindent := given_char (e := {}) .indentMark
    (fun e c => { e with layout := { e.layout with indentMark := c } }) rfl h.indentMark
  have hdedent := given_char (e := fresh { indentMark := l.indentMark } []) .dedentMark
    (fun e c => { e with layout := { e.layout with dedentMark := c } }) rfl h.dedentMark
  have hnewline := given_char (e := fresh marked []) .newline
    (fun e c => { e with layout := { e.layout with newline := c } }) rfl h.newline
  have hkeep := given_keepWhitespace (e := fresh ended []) h.keepWhitespace
  have hwhitespace := given_whitespace (e := fresh kept []) h.whitespace
  have hlines := given_lineEscapes (e := fresh l []) hline
  have hpaired := given_pairedEscapes (e := fresh l (line.map (⟨·, l.newline⟩))) hpairs
  rw [Engine.configure]
  simp only [setIndentMark, setDedentMark, setNewline]
  rw [hindent]
  change (fresh { indentMark := l.indentMark } []).given _ _ >>= _ = _
  rw [hdedent]
  change (fresh marked []).given _ _ >>= _ = _
  rw [hnewline]
  change (fresh ended []).given _ _ >>= _ = _
  rw [hkeep]
  change (fresh kept []).given _ _ >>= _ = _
  rw [hwhitespace]
  change (fresh l []).given _ _ >>= _ = _
  rw [hlines]
  exact hpaired

/-- A source is read to the end under what is asked for, and closed. -/
theorem transform {σ : Type} [CharSource σ] (h : o.Asks l rules) (source : σ) :
    (Offside.transform source o).outcome =
      (({ Stream.ofSource source none with engine := .fresh l rules }).readAndClose
        (-1)).outcome.mapError .read := by
  have hconfigure : (Stream.ofSource source none).engine.configure o = .ok (.fresh l rules) :=
    h.configure
  rw [Offside.transform]
  simp only [hconfigure]

/-- A text is read to the end, because closing a text does not fail. -/
theorem transform_text (h : o.Asks l rules) (source : TextSource) :
    (Offside.transform source o).outcome =
      (({ Stream.ofSource source none with engine := .fresh l rules }).read (-1)).outcome.mapError
        .read := by
  rw [h.transform, Stream.outcome_readAndClose_of_ok]
  rw [Stream.outcome_close]
  split <;> rfl

end Options.Asks

namespace Engine

/-- **Options that are accepted ask for something**, and that is put in force. -/
theorem configure_eq_ok_iff {o : Options} {e : Engine} :
    configure {} o = .ok e ↔ ∃ l rules, o.Asks l rules ∧ e = .fresh l rules := by
  constructor
  · intro h
    have hconfigure := h
    rw [configure] at h
    simp only [setIndentMark, setDedentMark, setNewline] at h
    obtain ⟨e₁, hindent, h⟩ := exists_of_bind_eq_ok h
    obtain ⟨e₂, hdedent, h⟩ := exists_of_bind_eq_ok h
    obtain ⟨e₃, hnewline, h⟩ := exists_of_bind_eq_ok h
    obtain ⟨e₄, -, h⟩ := exists_of_bind_eq_ok h
    obtain ⟨e₅, hwhitespace, h⟩ := exists_of_bind_eq_ok h
    obtain ⟨e₆, hlines, hpairs⟩ := exists_of_bind_eq_ok h
    obtain ⟨indentMark, hindent⟩ := exists_of_given_char (Layout.indentMark {}) hindent
    obtain ⟨dedentMark, hdedent⟩ := exists_of_given_char (Layout.dedentMark {}) hdedent
    obtain ⟨newline, hnewline⟩ := exists_of_given_char (Layout.newline {}) hnewline
    obtain ⟨whitespace, hwhitespace⟩ :=
      exists_of_given_whitespace (Layout.whitespace {}) hwhitespace
    obtain ⟨line, hlines⟩ := exists_of_given_lineEscapes hlines
    obtain ⟨pairs, hpairs⟩ := exists_of_given_pairedEscapes hpairs
    let l : Layout :=
      { indentMark, dedentMark, newline, whitespace
        keepWhitespace := o.keepWhitespace.elim (Layout.keepWhitespace {}) Value.truthy }
    have hasks : o.Asks l _ :=
      ⟨hindent, hdedent, hnewline, rfl, hwhitespace, line, pairs, hlines, hpairs, rfl⟩
    exact ⟨l, _, hasks, by simpa using hconfigure.symm.trans hasks.configure⟩
  · rintro ⟨l, rules, h, rfl⟩
    exact h.configure

end Engine

end Offside
