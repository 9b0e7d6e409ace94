import Offside.Command.State
import Offside.Proofs.Installation
import Offside.Proofs.Pairing
import Offside.Settings.Environment

/-!
# Settings of a single run

What a run asks for comes on top of what is configured, and everything together is checked as a
whole.  All that is left in the end is what was given for each field, so the settings of a run can
be read off field by field.

The pairs take the longest way: those that are configured are read from their text, written again
with commas, followed by those of the run, and read once more.  Nothing checks what the run gives
value by value, only what is read in the end.  Values of two characters come out as they went in.
Of others a comma that was put in may become part of a pair, and whether the run is refused depends
on whether a character is left over at the end.

## Main definitions

* `Override.Admissible` — a run may have the marks and the whitespace it asks for.
* `Settings.Merged` — settings that follow from those configured and what a run asks for.

## Main results

* `Settings.resolve_eq_ok_iff` — the settings of a run, field by field.
* `State.resolve_merged` — **what a run asks for is merged into what is configured**.
* `State.resolve_pairedEscapes` — which escape pairs are refused, and how the others are read.
-/

namespace Offside

/-! ### What is accepted -/

namespace Settings

variable {v : Value} {g : Given} {configured r : Settings} {o : Override} {environment : Given}

theorem checkMark_eq_ok_iff {c : CodePoint} : checkMark v = .ok c ↔ v = .text [c] := by
  constructor
  · intro h
    unfold checkMark at h
    split at h
    · next d =>
      obtain rfl : d = c := by simpa using h
      rfl
    · simp at h
    · simp at h
  · rintro rfl
    exact checkMark_singleton c

theorem checkText_eq_ok_iff {cs : List CodePoint} :
    checkText v = .ok cs ↔ v = .text cs := by
  constructor
  · intro h
    unfold checkText at h
    split at h
    · next text =>
      obtain rfl : text = cs := by simpa using h
      rfl
    · simp at h
  · rintro rfl
    rfl

theorem text_of_checkWhitespace {cs : { cs : List CodePoint // cs ≠ [] }}
    (h : checkWhitespace v = .ok cs) : v = .text cs.1 := by
  rw [checkWhitespace] at h
  split at h
  · simp at h
  · next text htext =>
    split at h
    · simp at h
    · obtain rfl : _ = cs := by simpa using h
      exact checkText_eq_ok_iff.1 htext

theorem text_of_checkPairs
    {cs : { cs : List CodePoint // ∀ piece ∈ Pairs.split cs, piece.length = 2 }}
    (h : checkPairs v = .ok cs) : v = .text cs.1 := by
  rw [checkPairs] at h
  split at h
  · simp at h
  · next text htext =>
    split at h
    · simp at h
    · obtain rfl : _ = cs := by simpa using h
      exact checkText_eq_ok_iff.1 htext

/-- A field that is given passes its check by itself. -/
theorem check_of_check {α : Type} {f : Field} {check : Value → Except FieldCause α}
    {usual a : α} (hgiven : g.field f = some v) (h : g.check f check usual = .ok a) :
    check v = .ok a := by
  rw [Given.check, hgiven] at h
  dsimp only at h
  split at h
  · next a' ha =>
    rw [ha]
    simpa using h
  · simp at h

/-- If everything is accepted, every check has accepted its field. -/
theorem checks_of_check (h : check g = .ok r) :
    g.check .indentMark checkMark ({} : Settings).indentMark = .ok r.indentMark ∧
      g.check .dedentMark checkMark ({} : Settings).dedentMark = .ok r.dedentMark ∧
      g.check .newline checkMark ({} : Settings).newline = .ok r.newline ∧
      g.check .whitespace checkWhitespace ⟨_, ({} : Settings).whitespace_ne_nil⟩ =
        .ok ⟨_, r.whitespace_ne_nil⟩ ∧
      g.check .keepWhitespace checkFlag ({} : Settings).keepWhitespace = .ok r.keepWhitespace ∧
      g.check .lineEscapes checkText ({} : Settings).lineEscapes = .ok r.lineEscapes ∧
      g.check .pairedEscapes checkPairs ⟨_, ({} : Settings).length_pairedEscapes⟩ =
        .ok ⟨_, r.length_pairedEscapes⟩ ∧
      g.others = [] := by
  rw [check] at h
  dsimp only at h
  split at h
  · next hindent hdedent hnewline hwhitespace hkeep hline hpaired hothers =>
    cases h
    exact ⟨hindent, hdedent, hnewline, hwhitespace, hkeep, hline, hpaired, hothers⟩
  · simp at h

theorem others_of_check (h : check g = .ok r) : g.others = [] := by
  obtain ⟨-, -, -, -, -, -, -, hothers⟩ := checks_of_check h
  exact hothers

/-- What is accepted for a field is what was given for it, but for a flag, which may be spelt in
several ways. -/
theorem value_of_check (h : check g = .ok r) {f : Field} (hf : f ≠ .keepWhitespace)
    (hgiven : g.field f = some v) : v = r.value f := by
  obtain ⟨hindent, hdedent, hnewline, hwhitespace, -, hline, hpaired, -⟩ := checks_of_check h
  cases f with
  | indentMark => exact checkMark_eq_ok_iff.1 (check_of_check hgiven hindent)
  | dedentMark => exact checkMark_eq_ok_iff.1 (check_of_check hgiven hdedent)
  | newline => exact checkMark_eq_ok_iff.1 (check_of_check hgiven hnewline)
  | whitespace => exact text_of_checkWhitespace (check_of_check hgiven hwhitespace)
  | keepWhitespace => exact absurd rfl hf
  | lineEscapes => exact checkText_eq_ok_iff.1 (check_of_check hgiven hline)
  | pairedEscapes => exact text_of_checkPairs (check_of_check hgiven hpaired)

/-- **The settings of a run, field by field.**  They are just the values that the run gives for the
fields, and nothing else is accepted. -/
theorem resolve_eq_ok_iff :
    configured.resolve o environment = .ok r ↔
      environment.others = [] ∧ ∀ f, (configured.overridden o).field f = some (r.value f) := by
  constructor
  · intro h
    refine ⟨by simpa [overridden, Given.over] using others_of_check h, fun f => ?_⟩
    obtain ⟨v, hv⟩ : ∃ v, (configured.overridden o).field f = some v := by
      cases f with
      | pairedEscapes =>
        simp only [overridden]
        split <;> exact ⟨_, rfl⟩
      | _ => exact ⟨_, rfl⟩
    have hgiven : ((configured.overridden o).over environment).field f = some v := by
      simp [Given.over, hv]
    rw [hv, Option.some.injEq]
    -- the flag is the one field whose check reads words for it; the others are kept as they are
    by_cases hf : f = .keepWhitespace
    · subst hf
      obtain ⟨-, -, -, -, hkeep, -⟩ := checks_of_check h
      obtain rfl : Value.bool (o.keepWhitespace || configured.keepWhitespace) = v := by
        simpa [overridden] using hv
      have hflag := check_of_check hgiven hkeep
      rw [checkFlag, Except.ok.injEq] at hflag
      rw [hflag, value]
    · exact value_of_check h hf hgiven
  · rintro ⟨hothers, hfield⟩
    -- settings pass their own check
    have hgiven : (configured.overridden o).over environment = r.given := by
      simp only [Given.over, given, hothers]
      congr 1
      funext f
      simp [hfield]
    rw [resolve, hgiven]
    exact r.check_given

/-! ### The pairs of a run -/

/-- The text of the escape pairs when a run overrides the settings. -/
def pairsText (s : Settings) (o : Override) : List CodePoint :=
  if o.pairedEscapes = [] then s.pairedEscapes
  else Pairs.join (s.pairs.map (fun p => [p.1, p.2]) ++ o.pairedEscapes)

theorem overridden_pairedEscapes (s : Settings) (o : Override) :
    (s.overridden o).field .pairedEscapes = some (.text (s.pairsText o)) := by
  simp only [overridden, pairsText]
  split <;> rfl

/-- The pairs that are configured stay in step, however their text is written. -/
theorem split_pairsText (s : Settings) (o : Override) :
    Pairs.split (s.pairsText o) =
      Pairs.split s.pairedEscapes ++
        Pairs.split (Pairs.join o.pairedEscapes) := by
  rw [pairsText]
  split
  · next hnone => simp [hnone]
  · rw [s.map_pairs, Pairs.split_join_append s.length_pairedEscapes]

/-- Nothing is left over of the text of the pairs unless something is of what the run gives. -/
theorem forall_split_pairsText_iff (s : Settings) (o : Override) :
    (∀ piece ∈ Pairs.split (s.pairsText o), piece.length = 2) ↔
      ∀ piece ∈ Pairs.split (Pairs.join o.pairedEscapes), piece.length = 2 := by
  rw [split_pairsText]
  constructor
  · intro h piece hpiece
    exact h piece (List.mem_append_right _ hpiece)
  · intro h piece hpiece
    rcases List.mem_append.1 hpiece with hpiece | hpiece
    · exact s.length_pairedEscapes piece hpiece
    · exact h piece hpiece

theorem pairedEscapes_of_resolve (h : configured.resolve o environment = .ok r) :
    r.pairedEscapes = configured.pairsText o := by
  obtain ⟨-, hfield⟩ := resolve_eq_ok_iff.1 h
  have htext : configured.pairsText o = r.pairedEscapes := by
    simpa [overridden_pairedEscapes, value] using hfield .pairedEscapes
  exact htext.symm

theorem pairs_of_resolve (h : configured.resolve o environment = .ok r) :
    r.pairs = configured.pairs ++ Pairs.parse (Pairs.join o.pairedEscapes) := by
  simp only [pairs, Pairs.parse, pairedEscapes_of_resolve h, split_pairsText, List.filterMap_append]

/-- What is wrong with the pairs is told, whatever else is refused. -/
theorem exists_mem_of_pairedEscapes {x : FieldError}
    (h : g.check .pairedEscapes checkPairs ⟨_, ({} : Settings).length_pairedEscapes⟩ = .error x) :
    ∃ errors, check g = .error errors ∧ x ∈ errors := by
  rw [check]
  dsimp only
  split
  · next hpaired _ =>
    rw [h] at hpaired
    cases hpaired
  · exact ⟨_, rfl, by simp [h, refusals]⟩

theorem checkPairs_eq_error {cs : List CodePoint} (h : ∃ piece ∈ Pairs.split cs, piece.length ≠ 2) :
    ∃ c, checkPairs (.text cs) = .error (.notPair [c]) := by
  simp only [checkPairs, checkText]
  split
  · next piece hpiece =>
    have hlength : piece.length ≠ 2 := by simpa using List.find?_some hpiece
    have hone := (Pairs.length_mem_split (List.mem_of_find?_eq_some hpiece)).resolve_right hlength
    obtain ⟨c, rfl⟩ := List.length_eq_one_iff.1 hone
    exact ⟨c, rfl⟩
  · next hnone =>
    obtain ⟨piece, hpiece, hlength⟩ := h
    exact absurd hlength (by simpa using List.find?_eq_none.1 hnone piece hpiece)

/-- **A character that is left over is named.** -/
theorem exists_notPair (h : ∃ piece ∈ Pairs.split (configured.pairsText o), piece.length ≠ 2) :
    ∃ errors given c, configured.resolve o environment = .error errors ∧
      ⟨Field.pairedEscapes.label, given, .notPair [c]⟩ ∈ errors := by
  obtain ⟨c, hc⟩ := checkPairs_eq_error h
  have hrefused : ((configured.overridden o).over environment).check .pairedEscapes checkPairs
      ⟨_, ({} : Settings).length_pairedEscapes⟩ =
        .error ⟨Field.pairedEscapes.label, .text (configured.pairsText o),
          .notPair [c]⟩ := by
    simp [Given.check, Given.over, overridden_pairedEscapes, hc]
  obtain ⟨errors, hresolve, hmem⟩ := exists_mem_of_pairedEscapes hrefused
  exact ⟨errors, _, c, hresolve, hmem⟩

end Settings

/-! ### What a run may ask for -/

/-- The marks that a run asks for are single characters, and the whitespace it asks for is not
empty. -/
structure Override.Admissible (o : Override) : Prop where
  indentMark : ∀ v, o.indentMark = some v → ∃ c, v = .text [c]
  dedentMark : ∀ v, o.dedentMark = some v → ∃ c, v = .text [c]
  whitespace : ∀ v, o.whitespace = some v → ∃ cs, cs ≠ [] ∧ v = .text cs

/-- Settings that follow from those that are configured and what a run asks for, but for the pairs:
the marks and the whitespace are those of the run if there are any, the newline is the one that is
configured, and flags and characters are put together. -/
structure Settings.Merged (configured : Settings) (o : Override) (r : Settings) : Prop where
  indentMark : r.value .indentMark = o.indentMark.getD (configured.value .indentMark)
  dedentMark : r.value .dedentMark = o.dedentMark.getD (configured.value .dedentMark)
  newline : r.newline = configured.newline
  whitespace : r.value .whitespace = o.whitespace.getD (configured.value .whitespace)
  keepWhitespace : r.keepWhitespace = (o.keepWhitespace || configured.keepWhitespace)
  lineEscapes : r.lineEscapes = configured.lineEscapes ++ o.lineEscapes.flatten

namespace Settings

variable {configured r : Settings} {o : Override} {environment : Given}

/-- The usual value passes, so only a value that is given can fail to. -/
theorem getD_iff {P : Value → Prop} (option : Option Value) {usual : Value} (husual : P usual) :
    P (option.getD usual) ↔ ∀ v, option = some v → P v := by
  cases option with
  | none => simpa using husual
  | some v => simp

/-- **A run gets settings if and only if it may have what it asks for**, and no character of its
pairs is left over. -/
theorem exists_resolve_iff (hothers : environment.others = []) :
    (∃ r, configured.resolve o environment = .ok r) ↔ o.Admissible ∧
      ∀ piece ∈ Pairs.split (Pairs.join o.pairedEscapes),
        piece.length = 2 := by
  -- what is configured passes, so only what is overridden is in question
  let Mark (v : Value) : Prop := ∃ c, v = .text [c]
  let Blanks (v : Value) : Prop := ∃ cs, cs ≠ [] ∧ v = .text cs
  have usualIndent : Mark (configured.value .indentMark) := ⟨_, rfl⟩
  have usualDedent : Mark (configured.value .dedentMark) := ⟨_, rfl⟩
  have usualBlanks : Blanks (configured.value .whitespace) := ⟨_, configured.whitespace_ne_nil, rfl⟩
  have hindent := getD_iff o.indentMark usualIndent
  have hdedent := getD_iff o.dedentMark usualDedent
  have hwhitespace := getD_iff o.whitespace usualBlanks
  constructor
  · rintro ⟨r, h⟩
    obtain ⟨-, hfield⟩ := resolve_eq_ok_iff.1 h
    have hpairs := r.length_pairedEscapes
    rw [pairedEscapes_of_resolve h, forall_split_pairsText_iff] at hpairs
    refine ⟨⟨?_, ?_, ?_⟩, hpairs⟩
    · exact hindent.1 ⟨_, Option.some.inj (hfield .indentMark)⟩
    · exact hdedent.1 ⟨_, Option.some.inj (hfield .dedentMark)⟩
    · exact hwhitespace.1 ⟨_, r.whitespace_ne_nil, Option.some.inj (hfield .whitespace)⟩
  · rintro ⟨h, hpairs⟩
    -- each field is what is asked for, or what is configured
    obtain ⟨indentMark, hindent⟩ := hindent.2 h.indentMark
    obtain ⟨dedentMark, hdedent⟩ := hdedent.2 h.dedentMark
    obtain ⟨whitespace, hne, hwhitespace⟩ := hwhitespace.2 h.whitespace
    let r : Settings :=
      { indentMark, dedentMark, whitespace, newline := configured.newline
        whitespace_ne_nil := hne
        keepWhitespace := o.keepWhitespace || configured.keepWhitespace
        lineEscapes := configured.lineEscapes ++ o.lineEscapes.flatten
        pairedEscapes := configured.pairsText o
        length_pairedEscapes := (forall_split_pairsText_iff _ _).2 hpairs }
    refine ⟨r, resolve_eq_ok_iff.2 ⟨hothers, fun f => ?_⟩⟩
    cases f with
    | indentMark => exact congrArg some hindent
    | dedentMark => exact congrArg some hdedent
    | whitespace => exact congrArg some hwhitespace
    | pairedEscapes => exact overridden_pairedEscapes configured o
    | newline => rfl
    | keepWhitespace => rfl
    | lineEscapes => rfl

theorem merged_of_resolve (h : configured.resolve o environment = .ok r) :
    configured.Merged o r := by
  obtain ⟨-, hfield⟩ := resolve_eq_ok_iff.1 h
  constructor
  · exact (Option.some.inj (hfield .indentMark)).symm
  · exact (Option.some.inj (hfield .dedentMark)).symm
  · simpa [overridden, value, eq_comm] using hfield .newline
  · exact (Option.some.inj (hfield .whitespace)).symm
  · simpa [overridden, value, eq_comm] using hfield .keepWhitespace
  · exact (Value.text.inj (Option.some.inj (hfield .lineEscapes))).symm

/-- A run that asks for nothing gets what is configured. -/
theorem resolve_nothing (hothers : environment.others = []) :
    configured.resolve {} environment = .ok configured := by
  refine resolve_eq_ok_iff.2 ⟨hothers, fun f => ?_⟩
  cases f with
  | lineEscapes => simp [overridden, value]
  | _ => rfl

end Settings

/-! ### Options as texts -/

namespace State

variable {s : State} {configured : Settings} {lines values : List (List CodePoint)}

theorem joined_texts (index : Nat) (texts : List (List CodePoint)) :
    joined index (texts.map .text) = .ok texts := by
  induction texts generalizing index with
  | nil => rfl
  | cons text texts ih =>
    rw [List.map_cons, joined, ih]
    rfl

theorem lineEscapes_texts (texts : List (List CodePoint)) :
    lineEscapes (.list (texts.map .text)) = .ok texts := by
  cases texts with
  | nil => rfl
  | cons text texts => exact joined_texts 0 (text :: texts)

theorem pairedEscapes_texts (others : Nat) (texts : List (List CodePoint)) :
    pairedEscapes others (.list (texts.map .text)) = .ok texts := by
  cases texts with
  | nil => rfl
  | cons text texts => exact joined_texts others (text :: texts)

/-- What a run asks for whose escapes are given as texts. -/
def asked (s : State) (lines values : List (List CodePoint)) : Override where
  indentMark := given? s.arguments.indentChar
  dedentMark := given? s.arguments.dedentChar
  whitespace := given? s.arguments.whitespace
  keepWhitespace := s.arguments.keepWhitespace.truthy
  lineEscapes := lines
  pairedEscapes := values

theorem override_eq (hlines : s.arguments.lineEscape = .list (lines.map .text))
    (hvalues : s.arguments.pairedEscape = .list (values.map .text)) :
    s.override configured = .ok (s.asked lines values) := by
  rw [override, hlines, hvalues, lineEscapes_texts, pairedEscapes_texts]
  rfl

variable {e : Environment} {pairs : List (CodePoint × CodePoint)}

/-- **What a run asks for is merged into what is configured.**  A run with pairs of two characters
each is refused exactly for a mark that is no character or for whitespace that is empty.  Otherwise
its pairs come after those that are configured, and every other field is merged; and a run that asks
for nothing changes nothing, whatever is configured. -/
theorem resolve_merged (he : e.settings = .ok configured)
    (hlines : s.arguments.lineEscape = .list (lines.map .text))
    (hpairs : s.arguments.pairedEscape =
      .list (pairs.map fun p => .text [p.1, p.2])) :
    let o := s.asked lines (pairs.map fun p => [p.1, p.2])
    s.override configured = .ok o ∧
      ((∃ r, configured.resolve o e.given = .ok r) ↔ o.Admissible) ∧
      (∀ r, configured.resolve o e.given = .ok r →
        configured.Merged o r ∧ r.pairs = configured.pairs ++ pairs) ∧
      (o = {} → ∀ r : Settings, s.override r = .ok o ∧ r.resolve o e.given = .ok r) := by
  intro o
  have hothers : e.given.others = [] := Settings.others_of_check he
  have hoverride (r : Settings) : s.override r = .ok o := by
    refine override_eq hlines ?_
    rw [hpairs, List.map_map]
    rfl
  have hpieces : o.pairedEscapes = pairs.map fun p => [p.1, p.2] := by
    simp [o, asked]
  have htwo : ∀ piece ∈ pairs.map fun p => [p.1, p.2], piece.length = 2 := by
    intro piece hpiece
    obtain ⟨p, -, rfl⟩ := List.mem_map.1 hpiece
    rfl
  -- no piece of the joined text is lost, so the pairs are found again
  have hsplit := Pairs.split_join htwo
  refine ⟨hoverride configured, ?_, ?_, ?_⟩
  · rw [Settings.exists_resolve_iff hothers, hpieces, hsplit, and_iff_left htwo]
  · intro r hr
    refine ⟨Settings.merged_of_resolve hr, ?_⟩
    rw [Settings.pairs_of_resolve hr, hpieces, Pairs.parse, hsplit]
    simp [List.filterMap_map, Function.comp_def, Pairs.pair?]
  · intro hnothing r
    refine ⟨hoverride r, ?_⟩
    rw [hnothing]
    exact Settings.resolve_nothing hothers

/-- An environment with two pairs that no comma separates. -/
def bracketed : Environment where
  inherited := [("IndentDedent_Paired_Escapes", "()[]"), ("INDENTDEDENT_SINGLE_LINE_ESCAPES", "#"),
    ("indentdedent_whitespace_chars", "\t")]

/-- The settings that are configured there. -/
def bracketedSettings : Settings :=
  { whitespace := ['\t'], lineEscapes := ['#'], pairedEscapes := "()[]".codePoints }

theorem settings_bracketed : bracketed.settings = .ok bracketedSettings := by
  have hlower : Environment.lower bracketed.inherited =
      [("indentdedent_paired_escapes", "()[]".codePoints),
        ("indentdedent_single_line_escapes", "#".codePoints),
        ("indentdedent_whitespace_chars", "\t".codePoints)] := by
    decide +kernel
  rw [Environment.settings, Environment.given, Environment.byProcess, hlower]
  rfl

/-- A run that asks for pairs with commas in them and for another mark. -/
def commas : State where
  arguments :=
    { indentChar := .text "→", lineEscape := .list [.text "%", .text "//"]
      pairedEscape := .list [.text ",,", .text "<,"] }

/-- Commas on both sides of the ones that are put in stay where they belong. -/
theorem resolve_commas :
    bracketed.settings = .ok bracketedSettings ∧
      commas.arguments.lineEscape = .list ((["%", "//"] : List (List CodePoint)).map .text) ∧
      commas.arguments.pairedEscape =
        .list (([(',', ','), ('<', ',')] : List (CodePoint × CodePoint)).map fun p =>
          .text [p.1, p.2]) ∧
      ∃ o r, commas.override bracketedSettings = .ok o ∧
        bracketedSettings.resolve o bracketed.given = .ok r ∧ r.indentMark = '→' ∧
        r.lineEscapes = "#%//".codePoints ∧
        r.pairs =
          ([('(', ')'), ('[', ']'), (',', ','), ('<', ',')] : List (CodePoint × CodePoint)) := by
  have hlines : commas.arguments.lineEscape =
      .list ((["%", "//"] : List (List CodePoint)).map .text) := rfl
  have hpairs : commas.arguments.pairedEscape =
      .list (([(',', ','), ('<', ',')] : List (CodePoint × CodePoint)).map fun p =>
        .text [p.1, p.2]) := rfl
  obtain ⟨hoverride, hadmissible, hmerged, -⟩ := resolve_merged settings_bracketed hlines hpairs
  obtain ⟨r, hr⟩ := hadmissible.2
    { indentMark := fun v hv => ⟨'→', (Option.some.inj hv).symm⟩
      dedentMark := fun v hv => nomatch hv
      whitespace := fun v hv => nomatch hv }
  obtain ⟨hfields, hread⟩ := hmerged r hr
  refine ⟨settings_bracketed, hlines, hpairs, _, r, hoverride, hr, ?_, hfields.lineEscapes, hread⟩
  have hmark : Value.text [r.indentMark] = .text ['→'] := hfields.indentMark
  simpa using Value.text.inj hmark

/-- **Which escape pairs are refused, and how the others are read.**  What the run gives is read as
one text, two characters at a time.  If a character is left over in the end, the run is refused and
the character is named; else the pairs that were read come after those that are configured.  Among
values without commas only the last one matters: of one before it that has an odd length, the last
character is completed by the comma that was put in. -/
theorem resolve_pairedEscapes (he : e.settings = .ok configured)
    (hlines : s.arguments.lineEscape = .list (lines.map .text))
    (hvalues : s.arguments.pairedEscape = .list (values.map .text)) :
    let o := s.asked lines values
    let pieces := Pairs.split (Pairs.join values)
    s.override configured = .ok o ∧
      ((∃ piece ∈ pieces, piece.length ≠ 2) →
        ∃ errors given c, configured.resolve o e.given = .error errors ∧
          ⟨Field.pairedEscapes.label, given, .notPair [c]⟩ ∈ errors) ∧
      ((∀ piece ∈ pieces, piece.length = 2) →
        ((∃ r, configured.resolve o e.given = .ok r) ↔ o.Admissible) ∧
          ∀ r, configured.resolve o e.given = .ok r →
            r.pairs = configured.pairs ++ pieces.filterMap Pairs.pair?) ∧
      ∀ before last, values = before ++ [last] →
        (∀ value ∈ before, value ≠ [] ∧ .char ',' ∉ value) → .char ',' ∉ last →
          pieces = (before.flatMap fun value => Pairs.split (Pairs.closed value)) ++
              Pairs.split last ∧
            ((∃ piece ∈ pieces, piece.length ≠ 2) ↔ last.length % 2 = 1) := by
  intro o pieces
  have hothers : e.given.others = [] := Settings.others_of_check he
  refine ⟨override_eq hlines hvalues, ?_, ?_, ?_⟩
  · rintro ⟨piece, hpiece, hlength⟩
    refine Settings.exists_notPair ⟨piece, ?_, hlength⟩
    rw [Settings.split_pairsText]
    exact List.mem_append_right _ hpiece
  · intro htwo
    refine ⟨?_, fun r hr => Settings.pairs_of_resolve hr⟩
    exact (Settings.exists_resolve_iff hothers).trans (and_iff_left htwo)
  · rintro before last rfl hbefore hlast
    exact ⟨Pairs.split_join_concat hbefore hlast,
      Pairs.exists_length_ne_two_join_iff hbefore hlast⟩

/-- A run whose escape pairs are these texts. -/
def pairing (values : List (List CodePoint)) : State where
  arguments := { pairedEscape := .list (values.map .text) }

/-- The last value has an odd length, so the run is refused, and not for the value before it. -/
theorem resolve_lone_last :
    bracketed.settings = .ok bracketedSettings ∧
      (pairing ["(", "<>-"]).arguments.lineEscape = .list (([] : List (List CodePoint)).map .text) ∧
      (pairing ["(", "<>-"]).arguments.pairedEscape =
        .list ((["(", "<>-"] : List (List CodePoint)).map .text) ∧
      ∃ o errors given c, (pairing ["(", "<>-"]).override bracketedSettings = .ok o ∧
        bracketedSettings.resolve o bracketed.given = .error errors ∧
        ⟨Field.pairedEscapes.label, given, .notPair [c]⟩ ∈ errors := by
  have hlines : (pairing ["(", "<>-"]).arguments.lineEscape =
      .list (([] : List (List CodePoint)).map .text) := rfl
  have hvalues : (pairing ["(", "<>-"]).arguments.pairedEscape =
      .list ((["(", "<>-"] : List (List CodePoint)).map .text) := rfl
  obtain ⟨hoverride, hrefused, -, hlast⟩ :=
    resolve_pairedEscapes settings_bracketed hlines hvalues
  obtain ⟨-, hodd⟩ := hlast ["("] "<>-" rfl (by decide) (by decide)
  obtain ⟨errors, given, c, hresolve, hmem⟩ := hrefused (hodd.2 rfl)
  exact ⟨settings_bracketed, hlines, hvalues, _, errors, given, c, hoverride, hresolve, hmem⟩

/-- **The comma between two values may become a part of a pair.**  Values that are no pairs are
accepted: a comma closes the first of two values, or opens the second, or none is needed at all. -/
theorem comma_completes_pair :
    ({} : Environment).settings = .ok {} ∧
      "(".length ≠ 2 ∧ "".length ≠ 2 ∧ "()[]".length ≠ 2 ∧
      (∃ o r, (pairing ["(", "[]"]).override {} = .ok o ∧
        Settings.resolve {} o ({} : Environment).given = .ok r ∧
        r.pairs = ([('(', ','), ('[', ']')] : List (CodePoint × CodePoint))) ∧
      (∃ o r, (pairing ["", "("]).override {} = .ok o ∧
        Settings.resolve {} o ({} : Environment).given = .ok r ∧
        r.pairs = ([(',', '(')] : List (CodePoint × CodePoint))) ∧
      ∃ o r, (pairing ["()[]"]).override {} = .ok o ∧
        Settings.resolve {} o ({} : Environment).given = .ok r ∧
        r.pairs = ([('(', ')'), ('[', ']')] : List (CodePoint × CodePoint)) := by
  have he : ({} : Environment).settings = .ok {} := by rfl
  refine ⟨he, by decide, by decide, by decide, ?_, ?_, ?_⟩
  · refine ⟨_, _, rfl, rfl, rfl⟩
  · refine ⟨_, _, rfl, rfl, rfl⟩
  · refine ⟨_, _, rfl, rfl, rfl⟩

end State

end Offside
