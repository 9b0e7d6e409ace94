import Offside.Command.Stages
import Offside.Proofs.OpenFile
import Offside.Proofs.Options

/-!
# Converting the contents of a file

A run reads its input under settings that have been checked.  To ask for the same by options of a
call comes to the same text: the settings put in force what the options ask for, the open file is
read like its text, and the name of a stream is for messages only.

## Main definitions

* `Settings.options` — the settings as options of a call.
* `Settings.tokens` — what a text is turned into.

## Main results

* `Settings.asks_options` — the options ask for what the settings put in force.
* `Settings.outcome_transform` — the text that the options give.
* `Stream.drain_fileSource` — what is read from a file under settings.
-/

namespace Offside

namespace Settings

/-! ### Settings as options -/

/-- The settings as options of a call. -/
def options (s : Settings) : Options where
  indentMark := some (s.value .indentMark)
  dedentMark := some (s.value .dedentMark)
  newline := some (s.value .newline)
  keepWhitespace := some (s.value .keepWhitespace)
  whitespace := some (s.value .whitespace)
  lineEscapes := some (s.value .lineEscapes)
  pairedEscapes := some (.list (s.pairs.map fun p => .text [p.1, p.2]))

theorem foldl_addWhitespace (l : Layout) (cs : List CodePoint) :
    cs.foldl Layout.addWhitespace l =
      { l with whitespace := cs.foldl (fun ws c => ws.insert c) l.whitespace } := by
  induction cs generalizing l with
  | nil => rfl
  | cons c cs ih =>
    rw [List.foldl_cons, ih]
    rfl

/-- The conventions of the settings, without the order in which they are put together. -/
theorem layout_eq (s : Settings) :
    s.layout =
      { indentMark := s.indentMark, dedentMark := s.dedentMark, newline := s.newline
        keepWhitespace := s.keepWhitespace
        whitespace := s.whitespace.foldl (fun ws c => ws.insert c) [] } := by
  rw [layout, foldl_addWhitespace]

theorem spellsPairs_list (pairs : List (CodePoint × CodePoint)) :
    (Value.list (pairs.map fun p => .text [p.1, p.2])).SpellsPairs pairs := by
  refine ⟨_, rfl, ?_⟩
  induction pairs with
  | nil => exact .nil
  | cons p pairs ih => exact .cons (Value.spells_text _) ih

/-- **The options ask for what the settings put in force.** -/
theorem asks_options (s : Settings) : s.options.Asks s.layout s.rules := by
  rw [layout_eq]
  constructor
  · exact Value.char?_text_singleton _
  · exact Value.char?_text_singleton _
  · exact Value.char?_text_singleton _
  · rfl
  · exact ⟨s.whitespace, Value.spells_text _, rfl⟩
  · exact ⟨s.lineEscapes, s.pairs, Value.spells_text _, spellsPairs_list _, rfl⟩

/-- What a text is turned into under settings, up to its end or to the first error. -/
def tokens (s : Settings) (text : List CodePoint) : List Token :=
  (Stream.ofText none (.ofSettings s) text).drain.1

/-- The text that the options give is that of the tokens, unless reading fails. -/
theorem outcome_transform (s : Settings) (text : List CodePoint) :
    (transform { rest := text : TextSource } s.options).outcome =
      ((Stream.ofText none (.ofSettings s) text).drain.2.outcome.map fun _ =>
        Token.text (s.tokens text)).mapError .read := by
  have hread := s.asks_options.transform_text { rest := text : TextSource }
  rw [Stream.read_eq_drain, Reply.outcome_map] at hread
  exact hread

end Settings

/-! ### The name of a stream -/

namespace Engine

variable {e e' : Engine} {file : Option String} {c : CodePoint} {text : List CodePoint}
  {tokens : List Token} {notices : List Notice}

/-- Only an error names the stream. -/
theorem feed_eq_of_ok {fed : List Token × Engine × List Notice} (h : e.feed file c = .ok fed)
    (other : Option String) : e.feed other c = .ok fed := by
  by_cases hholds : e.holds c = true
  · rw [feed_of_holds hholds] at h ⊢
    exact h
  · rcases passes_or_decides hholds with hpass | hdec
    · rw [feed_of_passes hpass] at h ⊢
      exact h
    · rw [feed_of_decides hdec] at h ⊢
      cases hstack : e.stack.advance? e.lead with
      | none => simp [hstack] at h
      | some stack =>
        rw [hstack] at h
        exact h

theorem feedAll_eq_of_ok (h : e.feedAll file text = ⟨tokens, .ok e', notices⟩)
    (other : Option String) : e.feedAll other text = ⟨tokens, .ok e', notices⟩ := by
  refine feedAll_induction (P := fun e text tokens e' notices =>
    e.feedAll other text = ⟨tokens, .ok e', notices⟩) ?_ ?_ h
  · intro e
    rfl
  · intro e e₁ e' c rest out tokens told notices hc ih
    rw [feedAll_cons_of_ok (feed_eq_of_ok hc other), ih]

end Engine

namespace Stream

variable {e : Engine} {name : Option String} {text : List CodePoint} {tokens : List Token}
  {next : Stream TextSource} {notices : List Notice}

/-- **A text that is read without an error is read alike under any name.** -/
theorem drain_eq_of_ok (he : e.Leading) (hq : e.queue = [])
    (h : (ofText name e text).drain = (tokens, ⟨.ok (), next, notices⟩)) (other : Option String) :
    ∃ next' notices', (ofText other e text).drain = (tokens, ⟨.ok (), next', notices'⟩) := by
  obtain ⟨out, e', told, b, hfeed, rfl, -⟩ := exists_feedAll_of_drain_ok he hq h
  obtain ⟨b', hdrain⟩ := drain_of_feedAll_ok he hq (Engine.feedAll_eq_of_ok hfeed other)
  exact ⟨_, _, hdrain⟩

/-! ### The contents of a file -/

/-- An open file with the characters of a text. -/
def fileOf (t : TextSource) : FileSource := { rest := t.rest }

theorem mirrors_fileOf : CharSource.Mirrors fileOf := by
  rintro ⟨rest, name⟩
  cases rest <;> rfl

/-- A file that cannot be read to its end, as long as it is open. -/
def Faulty (file : FileSource) : Prop := file.closed = false ∧ file.fault ≠ none

theorem endless_faulty : CharSource.Endless Faulty := by
  rintro ⟨rest, fault, closed, name⟩ ⟨hopen, hfault⟩
  obtain rfl : closed = false := hopen
  obtain ⟨x, rfl⟩ : ∃ x, fault = some x := Option.ne_none_iff_exists'.1 hfault
  cases rest with
  | nil => exact ⟨by simp [CharSource.pull, FileSource.pull], rfl, hfault⟩
  | cons c rest => exact ⟨by simp [CharSource.pull, FileSource.pull], rfl, hfault⟩

/-- **What is read from a file under settings** is what its text is turned into: the text that the
options give, and the marks that were counted are those of blocks that were opened. -/
theorem drain_fileSource {settings : Settings} {bytes : List UInt8} {path : String}
    {last : Stream FileSource}
    (h : (ofSettings (fileSource bytes) settings (some path)).drain =
      (tokens, ⟨.ok (), last, notices⟩)) :
    ∃ text, Text.Utf8.decode bytes = { text := text } ∧
      (transform { rest := text.map .char : TextSource } settings.options).outcome =
        .ok (Token.text tokens) ∧
      tokens = settings.tokens (text.map .char) ∧
      last.engine.indents = tokens.countP (·.role = .indent) ∧
      last.engine.dedents = tokens.countP (·.role = .indent) := by
  rcases hdecode : Text.Utf8.decode bytes with ⟨text, fault⟩
  cases fault with
  | some f =>
    -- a fault is never behind, so the file would have been read to no end
    have hgoing : Going Faulty (ofSettings (fileSource bytes) settings (some path)) :=
      ⟨⟨rfl, by simp [ofSettings, ofSource, fileSource, hdecode]⟩, rfl, List.not_mem_nil⟩
    exact absurd (by rw [h]) (drain_ne_ok_of_going endless_faulty hgoing)
  | none =>
    -- without a fault the file is read as its text is
    have hfile : ofSettings (fileSource bytes) settings (some path) =
        (ofText (some path) (.ofSettings settings) (text.map .char)).mapSource fileOf := by
      rw [ofSettings, fileSource, hdecode]
      rfl
    rcases hdrain : (ofText (some path) (.ofSettings settings) (text.map .char)).drain with
      ⟨read, outcome, behind, told⟩
    rw [hfile, drain_mapSource mirrors_fileOf, hdrain] at h
    obtain ⟨rfl, rfl, rfl, -⟩ :
        read = tokens ∧ outcome = .ok () ∧ behind.mapSource fileOf = last ∧ _ := by simpa using h
    have he : (Engine.ofSettings settings).Leading := Engine.leading_fresh _ _
    obtain ⟨next', notices', hnone⟩ := drain_eq_of_ok he rfl hdrain none
    have htokens : settings.tokens (text.map .char) = read := by rw [Settings.tokens, hnone]
    obtain ⟨hindents, hdedents⟩ := counts_of_drain hdrain
    refine ⟨text, rfl, ?_, htokens.symm, hindents, hdedents⟩
    rw [settings.outcome_transform, hnone, htokens]
    rfl

end Stream

end Offside
