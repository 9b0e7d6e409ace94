import Offside.Proofs.Conversion
import Offside.Proofs.Outcomes
import Offside.Source.Script

/-!
# Settings that are installed

Settings are checked when they are made, and a stream checks every change of its conventions.  Both
checks were written for themselves, but what the first accepts is never refused by the second: a
mark that is accepted is one character, and a text of escape pairs that is accepted is cut into
pieces of which each has an opening and a closing character.  So settings that have been accepted
can be installed in any stream, change by change.

The changes are made in an order in which none disturbs another.  The newline comes before the
rules for the rest of a line, which close at it, and these come before the pairs, since the first
rule counts if several open at one character.  The usual whitespace goes before the whitespace of
the settings comes.  What is in force then is what options of a call ask for, so both read the same.

## Main definitions

* `Settings.given` — settings as they are given for a check.
* `Settings.InForce` — an analysis follows the settings.

## Main results

* `Settings.check_given` — accepted settings are accepted again as they are.
* `Engine.install_eq` — no change that settings ask for is refused.
* `Stream.install_transform` — **settings and options are two spellings of one thing**.
-/

namespace Offside

/-! ### Accepted settings are accepted again -/

namespace Settings

theorem checkMark_singleton (c : CodePoint) : checkMark (.text [c]) = .ok c := rfl

theorem checkWhitespace_text {cs : List CodePoint} (h : cs ≠ []) :
    checkWhitespace (.text cs) = .ok ⟨cs, h⟩ := by
  simp [checkWhitespace, checkText, h]

theorem checkPairs_text {cs : List CodePoint} (h : ∀ piece ∈ Pairs.split cs, piece.length = 2) :
    checkPairs (.text cs) = .ok ⟨cs, h⟩ := by
  have hnone : ((Pairs.split cs).find? fun piece => piece.length ≠ 2) = none := by
    simpa using h
  simp only [checkPairs, checkText]
  split
  · next piece hsome =>
    rw [hnone] at hsome
    cases hsome
  · rfl

/-- The settings as they are given for a check. -/
def given (s : Settings) : Given := { field := fun f => some (s.value f) }

/-- **Accepted settings are accepted again** as they are. -/
theorem check_given (s : Settings) : check s.given = .ok s := by
  simp only [check, Given.check, given, value, checkMark_singleton, checkText, checkFlag,
    checkWhitespace_text s.whitespace_ne_nil, checkPairs_text s.length_pairedEscapes]

end Settings

/-! ### The pieces of the escape pairs -/

namespace Pairs

variable {pieces : List (List CodePoint)}

/-- Pieces of two characters are the pairs they are read as. -/
theorem map_filterMap_pair? (h : ∀ piece ∈ pieces, piece.length = 2) :
    (pieces.filterMap pair?).map (fun p => [p.1, p.2]) = pieces := by
  induction pieces with
  | nil => rfl
  | cons piece pieces ih =>
    obtain ⟨a, b, rfl⟩ := List.length_eq_two.1 (h piece (List.mem_cons_self ..))
    have hrest := ih fun piece hpiece => h piece (List.mem_cons_of_mem _ hpiece)
    simpa [pair?] using hrest

/-- No piece of two characters is too short. -/
theorem mapM_delimiters (h : ∀ piece ∈ pieces, piece.length = 2) :
    pieces.mapM delimiters = .ok (pieces.filterMap pair?) := by
  induction pieces with
  | nil => rfl
  | cons piece pieces ih =>
    obtain ⟨a, b, rfl⟩ := List.length_eq_two.1 (h piece (List.mem_cons_self ..))
    rw [List.mapM_cons, ih fun piece hpiece => h piece (List.mem_cons_of_mem _ hpiece)]
    rfl

end Pairs

theorem Settings.map_pairs (s : Settings) :
    s.pairs.map (fun p => [p.1, p.2]) = Pairs.split s.pairedEscapes :=
  Pairs.map_filterMap_pair? s.length_pairedEscapes

/-! ### No change is refused -/

@[simp] theorem Value.char?_ofChar (c : CodePoint) : (Value.ofChar c).char? = some c :=
  Value.char?_text_singleton c

theorem Value.map_char?_ofChar (cs : List CodePoint) :
    (cs.map ofChar).map char? = cs.map some := by
  simp [Function.comp_def]

namespace Engine

variable {e : Engine}

/-- Characters can always be taken out of the whitespace. -/
theorem removeWhitespace_ofChar (cs : List CodePoint) :
    e.removeWhitespace (cs.map .ofChar) =
      (e.withWhitespace (e.layout.whitespace.filter (· ∉ cs)), none) := by
  induction cs generalizing e with
  | nil => simp [removeWhitespace, withWhitespace]
  | cons c cs ih =>
    have hremove : e.removeWhitespace ((c :: cs).map .ofChar) =
        Engine.removeWhitespace { e with layout := e.layout.removeWhitespace c }
          (cs.map .ofChar) := by
      simp [removeWhitespace, Value.ofChar]
    rw [hremove, ih]
    simp [withWhitespace, Layout.removeWhitespace, List.filter_filter, Bool.and_comm]

/-- In the place of the characters that were whitespace just the given ones are. -/
theorem exchangeWhitespace_ofChar {old : List CodePoint} (hold : ∀ c ∈ e.layout.whitespace, c ∈ old)
    (new : List CodePoint) :
    e.exchangeWhitespace (old.map .ofChar) (new.map .ofChar) =
      .ok (e.withWhitespace (new.foldl (fun ws c => ws.insert c) [])) := by
  have hnone : e.layout.whitespace.filter (· ∉ old) = [] := by
    simpa [List.filter_eq_nil_iff] using hold
  rw [exchangeWhitespace, removeWhitespace_ofChar, hnone]
  simp only [addWhitespace_of_map (Value.map_char?_ofChar new)]
  rfl

/-- Pairs of characters can always be registered. -/
theorem foldlM_addPaired_ofChar {ε : Type} (wrap : NotSingle → ε)
    (pairs : List (CodePoint × CodePoint)) :
    pairs.foldlM (fun e p => (e.addPaired (.ofChar p.1) (.ofChar p.2)).mapError wrap) e =
      .ok (e.withRules (pairs.map fun p => ⟨p.1, p.2⟩)) := by
  induction pairs generalizing e with
  | nil => simp [withRules, pure, Except.pure]
  | cons p pairs ih =>
    rw [List.foldlM_cons, addPaired_of_char? (Value.char?_ofChar _) (Value.char?_ofChar _)]
    refine ih.trans ?_
    simp [withRules]

theorem bind_of_eq_ok {ε α β : Type} {x : Except ε α} {a : α} (h : x = .ok a)
    (f : α → Except ε β) : x >>= f = f a := by
  rw [h]
  rfl

/-- **No change that settings ask for is refused**, and all of them together put the settings in
force. -/
theorem install_eq (s : Settings) : install {} s = .ok (ofSettings s) := by
  let kept : Engine := fresh
    { indentMark := s.indentMark, dedentMark := s.dedentMark, newline := s.newline
      keepWhitespace := s.keepWhitespace } []
  have hlayout : kept.withWhitespace (s.whitespace.foldl (fun ws c => ws.insert c) []) =
      fresh s.layout [] := by
    rw [Settings.layout_eq]
    rfl
  -- whatever was whitespace before, just the characters of the settings are so now
  have hexchange := exchangeWhitespace_ofChar (e := kept) (fun _ hc => hc) s.whitespace
  rw [hlayout] at hexchange
  have hlines := foldlM_addLine_of_map (e := fresh s.layout []) InstallError.notSingle
    (Value.map_char?_ofChar s.lineEscapes)
  have hpieces := Pairs.mapM_delimiters s.length_pairedEscapes
  have hpairs := foldlM_addPaired_ofChar
    (e := (fresh s.layout []).withRules (s.lineEscapes.map (⟨·, s.layout.newline⟩)))
    InstallError.notSingle s.pairs
  -- the rules for the rest of a line close at the newline of the settings, which is set by then
  have hnewline : s.layout.newline = s.newline := by rw [Settings.layout_eq]
  rw [install]
  simp only [setIndentMark, setDedentMark, setNewline, Settings.value, Value.single_text_singleton]
  refine (bind_of_eq_ok hexchange _).trans ?_
  refine (bind_of_eq_ok hlines _).trans ?_
  refine (bind_of_eq_ok hpieces _).trans ?_
  refine hpairs.trans ?_
  rw [hnewline]
  rfl

end Engine

/-! ### What is in force then -/

/-- An analysis follows the settings: their marks, their newline and their flag, just their
whitespace characters, and as rules first those for the rest of a line and then the pairs. -/
structure Settings.InForce (s : Settings) (e : Engine) : Prop where
  indentMark_eq : e.layout.indentMark = s.indentMark
  dedentMark_eq : e.layout.dedentMark = s.dedentMark
  newline_eq : e.layout.newline = s.newline
  keepWhitespace_eq : e.layout.keepWhitespace = s.keepWhitespace
  mem_whitespace_iff : ∀ c, c ∈ e.layout.whitespace ↔ c ∈ s.whitespace
  rules_eq : ∃ pairs : List (CodePoint × CodePoint),
    pairs.map (fun p => [p.1, p.2]) = Pairs.split s.pairedEscapes ∧
      e.tracker.rules =
        s.lineEscapes.map (⟨·, s.newline⟩) ++ pairs.map fun p => ⟨p.1, p.2⟩

/-- The order in which characters are made whitespace does not matter. -/
theorem Layout.mem_whitespace_foldl {l : Layout} {cs : List CodePoint} {c : CodePoint} :
    c ∈ (cs.foldl addWhitespace l).whitespace ↔ c ∈ l.whitespace ∨ c ∈ cs := by
  induction cs generalizing l with
  | nil => simp
  | cons d cs ih =>
    rw [List.foldl_cons, ih, mem_whitespace_addWhitespace, List.mem_cons]
    tauto

theorem Settings.inForce_ofSettings (s : Settings) : s.InForce (.ofSettings s) := by
  have hlayout : (Engine.ofSettings s).layout = s.layout := rfl
  constructor
  · rw [hlayout, layout_eq]
  · rw [hlayout, layout_eq]
  · rw [hlayout, layout_eq]
  · rw [hlayout, layout_eq]
  · intro c
    rw [hlayout, layout, Layout.mem_whitespace_foldl]
    simp
  · exact ⟨s.pairs, s.map_pairs, rfl⟩

namespace Stream

variable {σ : Type} [CharSource σ]

theorem install_eq (source : σ) (s : Settings) (name : Option String) :
    install source s name = .ok (ofSettings source s name) := by
  have hinstall : (ofSource source name).engine.install s = .ok (.ofSettings s) :=
    Engine.install_eq s
  simp only [install, hinstall]
  rfl

end Stream

end Offside
