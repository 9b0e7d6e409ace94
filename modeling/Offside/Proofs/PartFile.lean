import Offside.Proofs.Conversion
import Offside.Proofs.Decoding
import Offside.Proofs.Following
import Offside.Proofs.Unwritable

/-!
# Writing beside the target

The output is written unit by unit to a file beside its target, which is moved there in the end.
Whatever goes wrong on the way, after whatever part of the output, the file can be removed again: it
has been opened, so its path can be followed.  So in the end the target has been replaced and
nothing else, or nothing has been changed, unless there was a file beside the target before.

There is one failure that nobody attends to.  A mark that cannot be written breaks the run off at
once, and what has been written before it stays where it is.

## Main definitions

* `Settings.Turns` — the contents of a file that settings turn into others.
* `Delivered` — the output is at the target.
* `Abandoned`, `Stranded` — a part of the output is beside it, to be removed or to stay.

## Main results

* `copyUnits_cases` — what copying a stream to the end of a file comes to.
* `transformInto_cases` — what transforming a file into another comes to.
* `transformAt_cases` — what is left beside the target.
-/

namespace Offside

/-! ### The path beside a target -/

namespace Path

variable {p part : Path}

theorem part?_eq_some (h : p.part? = some part) :
    p.parts ≠ [] ∧ part = { p with parts := p.parts.dropLast ++ [p.name ++ partSuffix] } := by
  rw [part?, withName?] at h
  split at h
  · simp at h
  · next hparts => exact ⟨hparts, by simpa using h.symm⟩

theorem length_ofText_append_partSuffix (text : List CodePoint) :
    (FileName.ofText (text ++ partSuffix)).length = (FileName.ofText text).length + 5 := by
  have hsuffix : (FileName.ofText partSuffix).length = 5 := by decide +kernel
  rw [FileName.ofText_append, List.length_append, hsuffix]

theorem place_of_part? (t : Tree) (h : p.part? = some part) :
    ∃ init, t.place part = init ++ [FileName.ofText (p.name ++ partSuffix)] := by
  obtain ⟨-, rfl⟩ := part?_eq_some h
  refine t.place_of_parts_eq rfl fun hname => ?_
  have hlength := length_ofText_append_partSuffix p.name
  have hdots : FileName.dots.length = 2 := by decide +kernel
  rw [hname, hdots] at hlength
  omega

/-- The path beside a target leads elsewhere. -/
theorem place_ne_of_part? {t : Tree} (h : p.part? = some part) {init : List FileName}
    (hplace : t.place p = init ++ [FileName.ofText p.name]) : t.place p ≠ t.place part := by
  obtain ⟨init', hpart⟩ := place_of_part? t h
  intro heq
  rw [hplace, hpart] at heq
  obtain ⟨-, hname⟩ := List.append_inj' heq rfl
  have hlength := congrArg List.length (List.singleton_inj.1 hname)
  rw [length_ofText_append_partSuffix] at hlength
  omega

/-- The slashes between names have no null byte. -/
theorem null_mem_intercalate_iff (names : List (List CodePoint)) :
    0 ∈ FileName.ofText (List.intercalate [.char '/'] names) ↔
      ∃ name ∈ names, 0 ∈ FileName.ofText name := by
  have hslash : 0 ∉ FileName.ofText [.char '/'] := by decide +kernel
  induction names with
  | nil => simp
  | cons name rest ih =>
    cases rest with
    | nil => simp
    | cons next rest =>
      rw [List.intercalate_cons_cons, FileName.ofText_append, FileName.ofText_append,
        List.mem_append, List.mem_append]
      simp [hslash, ih]

theorem null_mem_bytes_iff : 0 ∈ p.bytes ↔ ∃ name ∈ p.parts, 0 ∈ FileName.ofText name := by
  have hslashes : 0 ∉ FileName.ofText (List.replicate p.slashes (.char '/')) := by
    rw [FileName.ofText, List.mem_flatMap]
    rintro ⟨c, hc, hnull⟩
    rw [List.eq_of_mem_replicate hc] at hnull
    exact absurd hnull (by decide +kernel)
  have hdot : 0 ∉ FileName.ofText ".".codePoints := by decide +kernel
  rw [bytes, text]
  split
  · rw [FileName.ofText_append, List.mem_append, null_mem_intercalate_iff]
    simp [hslashes]
  · split
    · next hparts => simp [hparts, hdot]
    · exact null_mem_intercalate_iff _

/-- What no path can have is in both. -/
theorem null_of_part? (h : p.part? = some part) (hnull : 0 ∈ p.bytes) : 0 ∈ part.bytes := by
  obtain ⟨hparts, rfl⟩ := part?_eq_some h
  rw [null_mem_bytes_iff] at hnull ⊢
  obtain ⟨name, hmem, hnull⟩ := hnull
  rw [← List.dropLast_concat_getLast hparts, List.mem_append, List.mem_singleton,
    ← name_eq_getLast hparts] at hmem
  rcases hmem with hmem | rfl
  · exact ⟨name, List.mem_append_left _ hmem, hnull⟩
  · refine ⟨_, List.mem_append_right _ (List.mem_singleton_self _), ?_⟩
    rw [FileName.ofText_append]
    exact List.mem_append_left _ hnull

end Path

/-! ### Actions on a tree -/

namespace Tree

variable {α β : Type}

/-- What an action comes to, and the tree after it. -/
def after (t : Tree) (x : StateM Tree α) : α × Tree := x t

variable (t : Tree) (p q : Path) (bytes : List UInt8)

@[simp] theorem after_pure (a : α) : t.after (pure a) = (a, t) := rfl

@[simp] theorem after_bind (x : StateM Tree α) (f : α → StateM Tree β) :
    t.after (x >>= f) = (t.after x).2.after (f (t.after x).1) := rfl

@[simp] theorem after_read :
    t.after (FileSystem.read p) = ((t.read p).mapError (⟨·, p, none⟩), t) := rfl

@[simp] theorem after_create :
    t.after (FileSystem.create p) = t.after (change p none fun t => t.create p) := rfl

@[simp] theorem after_append :
    t.after (FileSystem.append p bytes) = t.after (change p none fun t => t.append p bytes) := rfl

@[simp] theorem after_makeDirectory :
    t.after (FileSystem.makeDirectory p) = t.after (change p none fun t => t.makeDirectory p) := rfl

@[simp] theorem after_rename :
    t.after (FileSystem.rename p q) = t.after (change p (some q) fun t => t.rename p q) := rfl

@[simp] theorem after_remove :
    t.after (FileSystem.remove p) = t.after (change p none fun t => t.remove p) := rfl

variable {t p} {f : Tree → Except FileFailure Tree} {target : Option Path}

/-- A change that succeeds. -/
theorem after_change_of_ok {t' : Tree} (h : f t = .ok t') :
    t.after (change p target f) = (.ok (), t') := by
  simp [after, change, h]

/-- A change that fails is none. -/
theorem after_change_of_error {e : FileFailure} (h : f t = .error e) :
    t.after (change p target f) = (.error ⟨e, p, target⟩, t) := by
  simp [after, change, h]

end Tree

/-! ### What a file is turned into -/

open Text in
/-- Settings turn the contents of a file, which are a text, into others, with so many characters
and so many blocks. -/
def Settings.Turns (settings : Settings) (bytes out : List UInt8) (units blocks : Nat) : Prop :=
  ∃ raw chars, Utf8.encode raw = bytes ∧
    (transform { rest := (unifyLineEnds raw).map .char : TextSource } settings.options).outcome =
      .ok chars ∧
    Utf8.encode? chars = some out ∧ units = chars.length ∧
    chars = Token.text (settings.tokens ((unifyLineEnds raw).map .char)) ∧
    blocks = (settings.tokens ((unifyLineEnds raw).map .char)).countP (·.role = .indent)

section Copy

variable {t t₁ t' : Tree} {p : Path} {before : List UInt8} {stream last : Stream FileSource}
  {copied : Except FileTransformError Nat} {notices : List Notice}

/-- **What copying a stream to the end of a file comes to.**  It stops with part of the units in the
file, perhaps at one that cannot be written, or all of them are there. -/
theorem copyUnits_cases (hbefore : t.Filled p before t₁)
    (h : t₁.after (copyUnits p stream) = ((copied, last, notices), t')) :
    (∃ e, copied = .error e ∧ (∃ bytes, t.Filled p bytes t') ∧ (∀ c, e ≠ .unencodable c) ∧
        ∀ q target, e = .file ⟨.badPath, q, target⟩ → 0 ∈ p.bytes) ∨
      (∃ tokens unit rest bytes, copied = .error (.unencodable unit.char) ∧
        stream.drain.1 = tokens ++ unit :: rest ∧ Text.Utf8.encodeUnit? unit.char = none ∧
        Text.Utf8.encode? (Token.text tokens) = some bytes ∧ t.Filled p (before ++ bytes) t') ∨
      ∃ tokens bytes, stream.drain = (tokens, ⟨.ok (), last, notices⟩) ∧
        copied = .ok tokens.length ∧ Text.Utf8.encode? (Token.text tokens) = some bytes ∧
        t.Filled p (before ++ bytes) t' := by
  -- along the units of the stream, each of which is written before the next is asked for
  induction stream using Stream.drain.induct generalizing t₁ before copied notices with
  | case1 stream e next told hnext =>
    rw [copyUnits, hnext] at h
    obtain ⟨⟨rfl, -⟩, rfl⟩ : (_ ∧ _) ∧ _ := by simpa using h
    exact Or.inl ⟨_, rfl, ⟨_, hbefore⟩, by simp, by simp⟩
  | case2 stream next told hnext =>
    rw [copyUnits, hnext] at h
    obtain ⟨⟨rfl, rfl, rfl⟩, rfl⟩ : (_ ∧ _ ∧ _) ∧ _ := by simpa using h
    refine Or.inr (Or.inr ⟨[], [], ?_, rfl, rfl, by rwa [List.append_nil]⟩)
    rw [Stream.drain, hnext]
  | case3 stream token next told hnext tokens reply hdrain ih =>
    rw [copyUnits, hnext] at h
    have hunits : stream.drain.1 = token :: next.drain.1 := by
      rw [Stream.drain, hnext]
    cases hunit : Text.Utf8.encodeUnit? token.char with
    | none =>
      -- the unit is the first that cannot be written
      simp only [hunit] at h
      obtain ⟨⟨rfl, -⟩, rfl⟩ : (_ ∧ _) ∧ _ := by simpa using h
      exact Or.inr (Or.inl ⟨[], token, _, [], rfl, hunits, hunit, rfl, by rwa [List.append_nil]⟩)
    | some bytes =>
      simp only [hunit, Tree.after_bind, Tree.after_append] at h
      cases happend : t₁.append p bytes with
      | error e =>
        rw [Tree.after_change_of_error happend] at h
        obtain ⟨⟨rfl, -⟩, rfl⟩ : (_ ∧ _) ∧ _ := by simpa using h
        refine Or.inl ⟨_, rfl, ⟨_, hbefore⟩, by simp, ?_⟩
        rintro q target ⟨rfl⟩
        exact Tree.append_eq_badPath_iff.1 happend
      | ok t₂ =>
        rw [Tree.after_change_of_ok happend] at h
        rcases hrest : t₂.after (copyUnits p next) with ⟨⟨copied', last', notices'⟩, t₃⟩
        simp only [Tree.after_bind, hrest] at h
        obtain ⟨⟨rfl, rfl, rfl⟩, rfl⟩ : (_ ∧ _ ∧ _) ∧ _ := by simpa using h
        have hencode {rest : List Token} {more : List UInt8}
            (hmore : Text.Utf8.encode? (Token.text rest) = some more) :
            Text.Utf8.encode? (Token.text (token :: rest)) = some (bytes ++ more) := by
          simp only [Token.text, List.map_cons, Text.Utf8.encode?, hunit, Option.bind_some]
          rw [← Token.text, hmore]
          rfl
        rcases ih (hbefore.append happend) hrest with ⟨e, rfl, hstopped⟩ |
          ⟨earlier, unit, rest, more, rfl, hall, hnone, hmore, hfilled⟩ |
          ⟨rest, more, hall, rfl, hmore, hfilled⟩
        · exact Or.inl ⟨e, rfl, hstopped⟩
        · refine Or.inr (Or.inl ⟨token :: earlier, unit, rest, bytes ++ more, rfl, ?_, hnone,
            hencode hmore, by rwa [← List.append_assoc]⟩)
          rw [hunits, hall]
          rfl
        · refine Or.inr (Or.inr ⟨token :: rest, bytes ++ more, ?_, rfl, hencode hmore,
            by rwa [← List.append_assoc]⟩)
          rw [Stream.drain, hnext]
          simp only [hall]
          rfl

end Copy

/-- The output is at the target, and nothing is left beside it.  If the input was beside the target,
nothing is said of what was written. -/
structure Delivered (settings : Settings) (input part target : Path) (t t' : Tree)
    (report : Report) : Prop where
  free : t.seen (t.place part) ≠ some .directory
  apart : t.place target ≠ t.place part
  here : t'.here = t.here
  written : ∃ bytes out blocks, t.seen (t.place input) = some (.file bytes) ∧
    (t.place input ≠ t.place part → settings.Turns bytes out report.units blocks ∧
      report = ⟨target.text, report.units, blocks, blocks⟩) ∧
    t'.seen = Function.update (Function.update t.seen (t.place part) none) (t.place target)
      (some (.file out))

/-- A part of the output is in the file beside the target, and it stays there because the mark that
comes next cannot be written.  If the input was beside the target, nothing is said of the mark. -/
structure Stranded (settings : Settings) (input part : Path) (t t' : Tree) (c : CodePoint) :
    Prop where
  free : t.seen (t.place part) ≠ some .directory
  left : ∃ bytes out, t.seen (t.place input) = some (.file bytes) ∧
    (t.place input ≠ t.place part → settings.StopsAt bytes input.toString out c) ∧
    t'.seen = Function.update t.seen (t.place part) (some (.file out))

/-- The file beside the target has been opened, and it can be removed. -/
structure Abandoned (part : Path) (t t' : Tree) : Prop where
  free : t.seen (t.place part) ≠ some .directory
  removed : ∃ t'', t'.remove part = .ok t'' ∧ t''.here = t.here ∧
    t''.seen = Function.update t.seen (t.place part) none

section Transform

variable {t t' t₁ : Tree} {settings : Settings} {input part target : Path}
  {outcome : Except FileTransformError Report} {heard : List Log.Entry} {bytes : List UInt8}

/-- Whatever has been written to the file beside the target, it can be removed. -/
theorem abandoned_of_filled {t₀ : Tree} (hpart : target.part? = some part)
    (hcreate : t.create part = .ok t₀) (hfilled : t.Filled part bytes t') :
    Abandoned part t t' := by
  obtain ⟨init, hplace⟩ := Path.place_of_part? t hpart
  exact ⟨(Tree.filled_create hcreate).1, hfilled.remove hcreate hplace⟩

/-- What is read of the input once the file beside the target is open, if it is another file. -/
theorem eq_of_read_filled {before bytes' : List UInt8} (hread : t.read input = .ok bytes)
    (hfilled : t.Filled part before t₁) (hapart : t.place input ≠ t.place part)
    (hagain : t₁.read input = .ok bytes') : bytes' = bytes := by
  have hbefore := Tree.read_eq_ok hread
  have hbehind := Tree.read_eq_ok hagain
  rw [Tree.place_of_here_eq hfilled.here, hfilled.seen, Function.update_of_ne hapart,
    hbefore] at hbehind
  simpa using hbehind.symm

/-- What is read of contents under settings is what they are turned into. -/
theorem turns_of_drain {path : String} {tokens : List Token} {last : Stream FileSource}
    {notices : List Notice}
    (h : (Stream.ofSettings (fileSource bytes) settings (some path)).drain =
      (tokens, ⟨.ok (), last, notices⟩)) :
    last.engine.dedents = last.engine.indents ∧
      ∀ out, Text.Utf8.encode? (Token.text tokens) = some out →
        settings.Turns bytes out tokens.length last.engine.indents := by
  obtain ⟨text, hdecode, htransform, htokens, hindents, hdedents⟩ := Stream.drain_fileSource h
  obtain ⟨raw, hraw, rfl⟩ := Text.Utf8.decode_eq_iff.1 hdecode
  have hlength : tokens.length = (Token.text tokens).length := by simp [Token.text]
  refine ⟨hdedents.trans hindents.symm, fun out hout =>
    ⟨raw, _, hraw, htransform, hout, hlength, by rw [htokens], ?_⟩⟩
  rw [hindents, htokens]

/-- What comes after the file beside the target has been opened: it may have been written to, and
only a path that no file can have is a bad one. -/
theorem transformInto_of_created (hread : t.read input = .ok bytes)
    (hcreate : t.create part = .ok t₁)
    (h : t.after (transformInto settings input part target) = ((outcome, heard), t')) :
    (∃ e, outcome = .error e ∧ (∀ c, e ≠ .unencodable c) ∧ (∃ before, t.Filled part before t') ∧
      ∀ p q, e = .file ⟨.badPath, p, q⟩ → 0 ∈ input.bytes ∨
        0 ∈ part.bytes ∨ 0 ∈ target.bytes) ∨
    (∃ c bytes' out, outcome = .error (.unencodable c) ∧ t₁.read input = .ok bytes' ∧
      settings.StopsAt bytes' input.toString out c ∧ t.Filled part out t') ∨
    ∃ bytes' tokens out last notices t₂, t₁.read input = .ok bytes' ∧
      (Stream.ofSettings (fileSource bytes') settings (some input.toString)).drain =
        (tokens, ⟨.ok (), last, notices⟩) ∧
      Text.Utf8.encode? (Token.text tokens) = some out ∧ t.Filled part out t₂ ∧
      t₂.rename part target = .ok t' ∧
      outcome = .ok ⟨target.text, tokens.length, last.engine.indents,
        last.engine.dedents⟩ := by
  obtain ⟨-, hfilled⟩ := Tree.filled_create hcreate
  rw [transformInto, Tree.after_bind, Tree.after_read] at h
  simp only [hread, Except.mapError, Tree.after_bind, Tree.after_create] at h
  rw [Tree.after_change_of_ok hcreate] at h
  simp only [Tree.after_bind, Tree.after_read] at h
  cases hagain : t₁.read input with
  | error e =>
    obtain ⟨⟨rfl, -⟩, rfl⟩ : (_ ∧ _) ∧ _ := by simpa [hagain, Except.mapError] using h
    refine Or.inl ⟨_, rfl, by simp, ⟨_, hfilled⟩, ?_⟩
    rintro p q ⟨rfl⟩
    exact Or.inl (Tree.read_eq_badPath_iff.1 hagain)
  | ok bytes' =>
    rcases hcopy : t₁.after (copyUnits part
      (Stream.ofSettings (fileSource bytes') settings (some input.toString))) with
      ⟨⟨copied, last, notices⟩, t₂⟩
    -- an open file does not fail to be closed, so what ends the copying ends the transformation
    have hclose : last.close.outcome = .ok () := by
      rw [Stream.outcome_close]
      split <;> rfl
    simp only [hagain, Except.mapError, Tree.after_bind, hcopy, hclose] at h
    rcases copyUnits_cases hfilled hcopy with ⟨e, rfl, hstopped, hnot, hbad⟩ |
      ⟨tokens, unit, rest, out, rfl, hdrain, hnone, hout, hall⟩ |
      ⟨tokens, out, hdrain, rfl, hout, hall⟩
    · obtain ⟨⟨rfl, -⟩, rfl⟩ : (_ ∧ _) ∧ _ := by simpa using h
      exact Or.inl ⟨_, rfl, hnot, hstopped, fun p q he => Or.inr (Or.inl (hbad p q he))⟩
    · obtain ⟨⟨rfl, -⟩, rfl⟩ : (_ ∧ _) ∧ _ := by simpa using h
      -- what a file delivers can be written, so the unit is a mark of the settings
      have hmark := Stream.mark_of_mem_drain (t := unit) (by rw [hdrain]; simp) hnone
      exact Or.inr (Or.inl ⟨_, bytes', out, rfl, rfl,
        ⟨hmark, hnone, tokens, unit, rest, hdrain, rfl, hout⟩, hall⟩)
    · simp only [Tree.after_bind, Tree.after_rename] at h
      cases hrename : t₂.rename part target with
      | error e =>
        rw [Tree.after_change_of_error hrename] at h
        obtain ⟨⟨rfl, -⟩, rfl⟩ : (_ ∧ _) ∧ _ := by simpa using h
        refine Or.inl ⟨_, rfl, by simp, ⟨_, hall⟩, ?_⟩
        rintro p q ⟨rfl⟩
        exact Or.inr (Tree.null_of_rename_eq_badPath hrename)
      | ok t₃ =>
        rw [Tree.after_change_of_ok hrename] at h
        obtain ⟨⟨rfl, -⟩, rfl⟩ : (_ ∧ _) ∧ _ := by simpa using h
        exact Or.inr (Or.inr ⟨bytes', tokens, out, last, notices, t₂, rfl, hdrain, hout, hall,
          hrename, rfl⟩)

/-- **What transforming a file into another comes to.**  It fails before anything is written, or
when the file beside the target can be removed, or at a mark that cannot be written, or the output
is delivered. -/
theorem transformInto_cases (hpart : target.part? = some part)
    (h : t.after (transformInto settings input part target) = ((outcome, heard), t')) :
    (∃ e, outcome = .error e ∧ (∀ c, e ≠ .unencodable c) ∧ t' = t) ∨
      (∃ e, outcome = .error e ∧ (∀ c, e ≠ .unencodable c) ∧ (∀ p q, e ≠ .file ⟨.badPath, p, q⟩) ∧
        Abandoned part t t') ∨
      (∃ c, outcome = .error (.unencodable c) ∧ Stranded settings input part t t' c) ∨
      ∃ report, outcome = .ok report ∧ Delivered settings input part target t t' report := by
  cases hread : t.read input with
  | error e =>
    rw [transformInto, Tree.after_bind, Tree.after_read] at h
    obtain ⟨⟨rfl, -⟩, rfl⟩ : (_ ∧ _) ∧ _ := by simpa [hread, Except.mapError] using h
    exact Or.inl ⟨_, rfl, by simp, rfl⟩
  | ok bytes =>
    cases hcreate : t.create part with
    | error e =>
      rw [transformInto, Tree.after_bind, Tree.after_read] at h
      simp only [hread, Except.mapError, Tree.after_bind, Tree.after_create] at h
      rw [Tree.after_change_of_error hcreate] at h
      obtain ⟨⟨rfl, -⟩, rfl⟩ : (_ ∧ _) ∧ _ := by simpa using h
      exact Or.inl ⟨_, rfl, by simp, rfl⟩
    | ok t₁ =>
      refine Or.inr ?_
      obtain ⟨hfree, hcreated⟩ := Tree.filled_create hcreate
      rcases transformInto_of_created hread hcreate h with
        ⟨e, rfl, hnot, ⟨before, hfilled⟩, hbad⟩ | ⟨c, bytes', out, rfl, hagain, hstops, hfilled⟩ |
        ⟨bytes', tokens, out, last, notices, t₂, hagain, hdrain, hout, hfilled, hrename, rfl⟩
      · refine Or.inl ⟨e, rfl, hnot, ?_, abandoned_of_filled hpart hcreate hfilled⟩
        -- both paths have led somewhere, so neither has a character that no path can have
        have hinput : 0 ∉ input.bytes := by
          rw [← Tree.read_eq_badPath_iff (t := t), hread]
          simp
        have hbeside : 0 ∉ part.bytes := by
          rw [← Tree.create_eq_badPath_iff (t := t), hcreate]
          simp
        intro p q he
        rcases hbad p q he with hnull | hnull | hnull
        · exact hinput hnull
        · exact hbeside hnull
        · exact hbeside (Path.null_of_part? hpart hnull)
      · refine Or.inr (Or.inl ⟨c, rfl, hfree, bytes, out, Tree.read_eq_ok hread, ?_, hfilled.seen⟩)
        intro hapart
        -- the input is another file, so it is read as it was before
        obtain rfl := eq_of_read_filled hread hcreated hapart hagain
        exact hstops
      · obtain ⟨init, htarget⟩ := t.place_of_endsInName (Tree.endsInName_of_rename hrename).2
        obtain ⟨hhere, hseen⟩ := hfilled.rename hrename
        refine Or.inr (Or.inr ⟨_, rfl, hfree, Path.place_ne_of_part? hpart htarget, hhere, bytes,
          out, last.engine.indents, Tree.read_eq_ok hread, ?_, hseen⟩)
        intro hapart
        obtain rfl := eq_of_read_filled hread hcreated hapart hagain
        obtain ⟨hdedents, hturns⟩ := turns_of_drain hdrain
        exact ⟨hturns out hout, by rw [hdedents]⟩

/-! ### What is left beside the target -/

/-- Nothing has changed, but that a file beside the target may be gone. -/
def Restored (beside : Option Path) (t t' : Tree) : Prop :=
  t'.seen = t.seen ∨ ∃ part, beside = some part ∧ t.seen (t.place part) ≠ some .directory ∧
    t'.seen = Function.update t.seen (t.place part) none

/-- A failed run removes the file beside the target, if it is there. -/
theorem restored_of_removeIfPresent {result : Except FileError Unit}
    (hpart : target.part? = some part)
    (h : t.after (removeIfPresent part) = (result, t')) : Restored target.part? t t' := by
  obtain ⟨init, hplace⟩ := Path.place_of_part? t hpart
  rw [removeIfPresent, Tree.after_bind, Tree.after_remove] at h
  cases hremove : t.remove part with
  | ok t₁ =>
    rw [Tree.after_change_of_ok hremove] at h
    obtain ⟨-, rfl⟩ : _ ∧ _ := by simpa using h
    obtain ⟨-, ⟨bytes, hfile⟩, hseen⟩ := Tree.seen_remove hremove hplace
    exact Or.inr ⟨part, hpart, by simp [hfile], hseen⟩
  | error e =>
    rw [Tree.after_change_of_error hremove] at h
    dsimp only at h
    split at h <;>
      · obtain ⟨-, rfl⟩ : _ ∧ _ := by simpa using h
        exact Or.inl rfl

/-- What was abandoned is removed. -/
theorem Abandoned.restored {result : Except FileError Unit} (habandoned : Abandoned part t t₁)
    (hpart : target.part? = some part)
    (h : t₁.after (removeIfPresent part) = (result, t')) : Restored target.part? t t' := by
  obtain ⟨t₂, hremove, -, hseen⟩ := habandoned.removed
  rw [removeIfPresent, Tree.after_bind, Tree.after_remove, Tree.after_change_of_ok hremove] at h
  obtain ⟨-, rfl⟩ : _ ∧ _ := by simpa using h
  exact Or.inr ⟨part, hpart, habandoned.free, hseen⟩

/-- A stage ends the run. -/
def Ending.Fails (ending : Ending) : Prop := ending = .exit 1 ∨ ∃ c, ending = .crash c

/-- Only a path that no file can have and a mark that cannot be written break a run off. -/
theorem FileTransformError.of_verdict_eq_error {e : FileTransformError} {crash : Crash}
    (h : e.verdict = .error crash) :
    (∃ p q, e = .file ⟨.badPath, p, q⟩) ∨ ∃ c, e = .unencodable c := by
  match e with
  | .read x => cases x <;> simp [verdict] at h
  | .file ⟨failure, p, q⟩ =>
    by_cases hbad : failure = .badPath
    · exact Or.inl ⟨p, q, by rw [hbad]⟩
    · simp [verdict, hbad] at h
  | .unencodable c => exact Or.inr ⟨c, rfl⟩

/-- **What is left beside the target.**  The output is delivered, or the stage fails and what was
there is restored, unless it has broken off at a mark that cannot be written. -/
theorem transformAt_cases {s : State} {ending : Ending} {told : Told}
    (h : t.after (transformAt settings s input target) = ((ending, told), t')) :
    (∃ part report, target.part? = some part ∧
        ending = .proceed { s with report := report.value } ∧
        Delivered settings input part target t t' report) ∨
      (ending.Fails ∧ Restored target.part? t t') ∨
      ∃ part c, target.part? = some part ∧ ending = .crash (.unencodable c) ∧
        Stranded settings input part t t' c := by
  rw [transformAt] at h
  cases hpart : target.part? with
  | none =>
    obtain ⟨⟨rfl, -⟩, rfl⟩ : (_ ∧ _) ∧ _ := by simpa [hpart] using h
    exact Or.inr (Or.inl ⟨Or.inr ⟨_, rfl⟩, Or.inl rfl⟩)
  | some part =>
    rw [hpart] at h
    rw [← hpart]
    rcases hinto : t.after (transformInto settings input part target) with ⟨⟨outcome, heard⟩, t₁⟩
    simp only [Tree.after_bind, hinto] at h
    -- a path that nothing can have ends the run at once, any other failure after the removal
    have hfails (e : FileTransformError) (he : outcome = .error e) (hnot : ∀ c, e ≠ .unencodable c)
        (hpath : (∃ p q, e = .file ⟨.badPath, p, q⟩) → t₁ = t)
        (hremoved : ∀ result t₂, t₁.after (removeIfPresent part) = (result, t₂) →
          Restored target.part? t t₂) : ending.Fails ∧ Restored target.part? t t' := by
      rw [he] at h
      dsimp only at h
      split at h
      · next crash hverdict =>
        obtain ⟨⟨rfl, -⟩, rfl⟩ : (_ ∧ _) ∧ _ := by simpa using h
        rcases FileTransformError.of_verdict_eq_error hverdict with hbad | ⟨c, hc⟩
        · exact ⟨Or.inr ⟨_, rfl⟩, Or.inl (by rw [hpath hbad])⟩
        · exact absurd hc (hnot c)
      · rcases hremove : t₁.after (removeIfPresent part) with ⟨x | _, t₂⟩
        all_goals
          obtain ⟨⟨rfl, -⟩, rfl⟩ : (_ ∧ _) ∧ _ := by simpa [hremove] using h
        · exact ⟨Or.inr ⟨_, rfl⟩, hremoved _ _ hremove⟩
        · exact ⟨Or.inl rfl, hremoved _ _ hremove⟩
    rcases transformInto_cases hpart hinto with ⟨e, he, hnot, rfl⟩ |
      ⟨e, he, hnot, hpath, habandoned⟩ | ⟨c, rfl, hstranded⟩ | ⟨report, rfl, hdelivered⟩
    · exact Or.inr (Or.inl (hfails e he hnot (fun _ => rfl) fun _ _ =>
        restored_of_removeIfPresent hpart))
    · refine Or.inr (Or.inl (hfails e he hnot ?_ fun _ _ => habandoned.restored hpart))
      rintro ⟨p, q, rfl⟩
      exact absurd rfl (hpath p q)
    · obtain ⟨⟨rfl, -⟩, rfl⟩ : (_ ∧ _) ∧ _ := by simpa [FileTransformError.verdict] using h
      exact Or.inr (Or.inr ⟨part, c, hpart, rfl, hstranded⟩)
    · obtain ⟨⟨rfl, -⟩, rfl⟩ : (_ ∧ _) ∧ _ := by simpa using h
      exact Or.inl ⟨part, report, hpart, rfl, hdelivered⟩

end Transform

end Offside
