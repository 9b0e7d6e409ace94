import Offside.Proofs.PartFile

/-!
# A run on files

The paths of a run are checked, which may make directories for the output, and then the input is
transformed.  A run that goes through has replaced its target, and one that fails has changed
nothing more.  All this is said of the files that are found at places: which paths are given for
the input and for the output, and what else there is in the tree, does not matter, but for the
file beside the target.  That one is written over, whatever it was.

## Main definitions

* `Tree.Leaves`, `Tree.Adds` — actions that change nothing, and that only make directories.
* `State.input?`, `State.target?`, `State.part?` — the paths of a run.

## Main results

* `run_cases` — what a run comes to.
* `run_allOrNothing` — where no file is beside the target, a run delivers its output or nothing.
* `run_keeps_files` — all other files are kept.
-/

namespace Offside

/-! ### Actions that change no file -/

namespace Tree

variable {α β : Type}

/-- An action that changes nothing. -/
def Leaves (x : StateM Tree α) : Prop := ∀ t : Tree, (t.after x).2 = t

/-- An action that makes directories at most. -/
def Adds (x : StateM Tree α) : Prop := ∀ t : Tree, Grows t (t.after x).2

variable {x : StateM Tree α} {f : α → StateM Tree β}

theorem leaves_pure (a : α) : Leaves (pure a) := fun _ => rfl

theorem Leaves.bind (hx : Leaves x) (hf : ∀ a, Leaves (f a)) : Leaves (x >>= f) := by
  intro t
  rw [after_bind, hf, hx]

theorem Leaves.adds (hx : Leaves x) : Adds x := by
  intro t
  rw [hx]
  exact .refl t

theorem Adds.bind (hx : Adds x) (hf : ∀ a, Adds (f a)) : Adds (x >>= f) := by
  intro t
  rw [after_bind]
  exact (hx t).trans (hf _ _)

theorem leaves_kind (p : Path) : Leaves (FileSystem.kind p) := fun _ => rfl

theorem leaves_read (p : Path) : Leaves (FileSystem.read p) := fun _ => rfl

theorem leaves_kind? (p : Path) : Leaves (FileSystem.kind? p) := by
  refine (leaves_kind p).bind fun found => ?_
  cases found with
  | ok kind => exact leaves_pure _
  | error e =>
    dsimp only
    split <;> exact leaves_pure _

theorem leaves_isFile (p : Path) : Leaves (FileSystem.isFile p) :=
  (leaves_kind? p).bind fun _ => leaves_pure _

theorem leaves_isDirectory (p : Path) : Leaves (FileSystem.isDirectory p) :=
  (leaves_kind? p).bind fun _ => leaves_pure _

theorem adds_makeDirectory (p : Path) : Adds (FileSystem.makeDirectory p) := by
  intro t
  rw [after_makeDirectory]
  cases hmake : t.makeDirectory p with
  | ok t' =>
    rw [after_change_of_ok hmake]
    exact grows_makeDirectory hmake
  | error e =>
    rw [after_change_of_error hmake]
    exact .refl t

theorem adds_makeOne (p : Path) (mayExist : Bool) : Adds (FileSystem.makeOne p mayExist) := by
  refine (adds_makeDirectory p).bind fun made => ?_
  cases made with
  | ok _ => exact (leaves_pure _).adds
  | error e =>
    dsimp only
    split
    · exact (leaves_pure _).adds
    · refine ((leaves_isDirectory p).bind fun found => ?_).adds
      rcases found with e' | _ | _ <;> exact leaves_pure _

/-- Making all directories on the way, from the last one that is missing. -/
theorem adds_makeAll (slashes : Nat) (mayExist : Bool) (room : Nat)
    (names : List (List CodePoint)) : Adds (FileSystem.makeAll slashes mayExist room names) := by
  induction names generalizing mayExist room with
  | nil => cases room <;> exact adds_makeOne _ mayExist
  | cons name before ih =>
    cases room with
    | zero => exact (leaves_pure _).adds
    | succ room =>
      rw [FileSystem.makeAll]
      refine (adds_makeOne _ mayExist).bind fun made => ?_
      cases made with
      | ok _ => exact (leaves_pure _).adds
      | error e =>
        dsimp only
        split
        · refine (ih true room).bind fun rest => ?_
          cases rest with
          | ok _ => exact adds_makeOne _ mayExist
          | error e => exact (leaves_pure _).adds
        · exact (leaves_pure _).adds

end Tree

/-! ### The environment -/

open Offside.Tree

theorem leaves_readEnvironment (inherited : List (String × List CodePoint)) :
    Leaves (readEnvironment inherited) := by
  refine (leaves_isFile _).bind fun found => ?_
  rcases found with e | _ | _
  · exact leaves_pure _
  · exact leaves_pure _
  · refine (leaves_read _).bind fun contents => ?_
    cases contents <;> exact leaves_pure _

theorem leaves_settle (inherited : List (String × List CodePoint)) (configured : Settings)
    (s : State) :
    Leaves (settle inherited configured s) := by
  rw [settle]
  cases s.override configured with
  | error e => exact leaves_pure _
  | ok override =>
    refine (leaves_readEnvironment _).bind fun environment => ?_
    cases environment with
    | error fault => exact leaves_pure _
    | ok environment =>
      dsimp only
      split <;> exact leaves_pure _

/-! ### The stages -/

/-- The state that a run goes on with. -/
def Ending.state? : Ending → Option State
  | proceed s => some s
  | _ => none

theorem Ending.exists_of_isSome {ending : Ending} (h : ending.state?.isSome = true) :
    ∃ s, ending = .proceed s := by
  cases ending with
  | proceed s => exact ⟨s, rfl⟩
  | exit code => simp [Ending.state?] at h
  | crash c => simp [Ending.state?] at h

namespace State

/-- The path of the input. -/
def input? (s : State) : Option Path := (pathFrom s.inputDir s.arguments.inputFile).toOption

/-- The path of the output. -/
def target? (s : State) : Option Path :=
  match nameOf s.arguments.inputFile with
  | .ok inputFile => (pathFrom s.outputDir (outputName s.arguments inputFile)).toOption
  | .error _ => none

/-- The path beside that of the output. -/
def part? (s : State) : Option Path := s.target?.bind Path.part?

/-- The state when the paths have been checked. -/
def checked (s : State) (input target : Path) : State :=
  { s with ready := .bool true, inputPath := .at input, outputPath := .at target }

end State

variable {t t' : Tree} {s : State} {ending : Ending} {told : Told} {configured : Settings}
  {inherited : List (String × List CodePoint)} {listener : Value} {input target : Path}

/-- Checking the paths makes directories at most, and finds the paths unless it fails. -/
theorem checkPaths_cases (h : t.after (checkPaths s) = ((ending, told), t')) :
    Grows t t' ∧ (ending.Fails ∨ ∃ input target, s.input? = some input ∧
      s.target? = some target ∧ ending = .proceed (s.checked input target)) := by
  -- a check that fails before a directory is made leaves the tree as it is
  have hstops {ending' : Ending} {told' : Told} (hfails : ending'.Fails)
      (h : t.after (pure (ending', told')) = ((ending, told), t')) :
      Grows t t' ∧ (ending.Fails ∨ ∃ input target, s.input? = some input ∧
        s.target? = some target ∧ ending = .proceed (s.checked input target)) := by
    obtain ⟨⟨rfl, -⟩, rfl⟩ : (_ ∧ _) ∧ _ := by simpa using h
    exact ⟨.refl t, Or.inl hfails⟩
  rw [checkPaths] at h
  dsimp only at h
  split at h
  · exact hstops (Or.inr ⟨_, rfl⟩) h
  · split at h
    · exact hstops (Or.inr ⟨_, rfl⟩) h
    · next inputFile hname =>
      have hinput : s.input? = some (s.inputDir.join (.ofText inputFile)) := by
        rw [State.input?, pathFrom, hname]
        rfl
      rw [after_bind, leaves_isFile] at h
      rcases hfound : (t.after (FileSystem.isFile (s.inputDir.join (.ofText inputFile)))).1 with
        e | _ | _ <;> rw [hfound] at h
      · exact hstops (Or.inr ⟨_, rfl⟩) h
      · exact hstops (Or.inl rfl) h
      · cases htarget : pathFrom s.outputDir (outputName s.arguments inputFile) with
        | error e =>
          simp only [htarget] at h
          exact hstops (Or.inr ⟨_, rfl⟩) h
        | ok target =>
          simp only [htarget] at h
          -- the input is there, and the directories for the output are made
          have hgrows : Grows t (t.after (FileSystem.makeDirectories target.parent true)).2 :=
            adds_makeAll _ true _ _ t
          rw [after_bind] at h
          rcases hmade : t.after (FileSystem.makeDirectories target.parent true) with ⟨e | _, t₁⟩
          all_goals
            rw [hmade] at h hgrows
            obtain ⟨⟨rfl, -⟩, rfl⟩ : (_ ∧ _) ∧ _ := by simpa using h
          · exact ⟨hgrows, Or.inl (Or.inr ⟨_, rfl⟩)⟩
          · refine ⟨hgrows, Or.inr ⟨_, target, hinput, ?_, rfl⟩⟩
            rw [State.target?, hname]
            simp only [htarget]
            rfl

/-- Without settings the run fails. -/
theorem settle_fails (h : (t.after (settle inherited configured s)).1 = (.error ending, told)) :
    ending.Fails := by
  have hstops {failure : Ending} {words : Told} (hfails : failure.Fails)
      (h : (t.after (pure (.error failure, words))).1 =
        ((.error ending, told) : Except Ending Settings × Told)) : ending.Fails := by
    obtain ⟨rfl, -⟩ : _ ∧ _ := by simpa using h
    exact hfails
  rw [settle] at h
  cases hoverride : s.override configured with
  | error e =>
    rw [hoverride] at h
    exact hstops (Or.inr ⟨_, rfl⟩) h
  | ok override =>
    rw [hoverride] at h
    dsimp only at h
    rw [after_bind] at h
    cases hread : (t.after (readEnvironment inherited)).1 with
    | error fault =>
      rw [hread] at h
      exact hstops (Or.inl rfl) h
    | ok environment =>
      rw [hread] at h
      dsimp only at h
      split at h
      · exact hstops (Or.inl rfl) h
      · simp at h

/-- Transforming the input delivers the output, or it fails and restores what was there, unless it
breaks off at a mark that cannot be written. -/
theorem transformFile_cases (hinput : s.inputPath = .at input) (htarget : s.outputPath = .at target)
    (h : t.after (transformFile inherited configured listener s) = ((ending, told), t')) :
    (∃ settings part report, (t.after (settle inherited configured s)).1.1 = .ok settings ∧
        target.part? = some part ∧ ending = .proceed { s with report := report.value } ∧
        Delivered settings input part target t t' report) ∨
      (ending.Fails ∧ Restored target.part? t t') ∨
      ∃ settings part c, (t.after (settle inherited configured s)).1.1 = .ok settings ∧
        target.part? = some part ∧ ending = .crash (.unencodable c) ∧
        Stranded settings input part t t' c := by
  rw [transformFile, after_bind, leaves_settle] at h
  rcases hsettle : (t.after (settle inherited configured s)).1 with ⟨failure | settings, words⟩
  · rw [hsettle] at h
    obtain ⟨⟨rfl, -⟩, rfl⟩ : (_ ∧ _) ∧ _ := by simpa using h
    exact Or.inr (Or.inl ⟨settle_fails hsettle, Or.inl rfl⟩)
  · rw [hsettle] at h
    simp only [hinput, htarget] at h
    split at h
    · obtain ⟨⟨rfl, -⟩, rfl⟩ : (_ ∧ _) ∧ _ := by simpa using h
      exact Or.inr (Or.inl ⟨Or.inr ⟨_, rfl⟩, Or.inl rfl⟩)
    · rcases hat : t.after (transformAt settings s input target) with ⟨⟨ending', told'⟩, t₁⟩
      rw [after_bind, hat] at h
      obtain ⟨⟨rfl, -⟩, rfl⟩ : (_ ∧ _) ∧ _ := by simpa using h
      rcases transformAt_cases hat with ⟨part, report, hpart, hending, hdelivered⟩ | hfailed |
        ⟨part, c, hpart, hending, hstranded⟩
      · exact Or.inl ⟨settings, part, report, rfl, hpart, hending, hdelivered⟩
      · exact Or.inr (Or.inl hfailed)
      · exact Or.inr (Or.inr ⟨settings, part, c, rfl, hpart, hending, hstranded⟩)

/-- **What a run comes to.** -/
theorem run_cases {run : (Ending × Told) × Tree}
    (h : t.after (runStages s [checkPaths, transformFile inherited configured listener]) = run) :
    Grows t (t.after (checkPaths s)).2 ∧
      ((run.1.1.Fails ∧ Restored s.part? (t.after (checkPaths s)).2 run.2) ∨
        ∃ input target part settings, s.input? = some input ∧ s.target? = some target ∧
          s.part? = some part ∧
          (t.after (checkPaths s)).1.1 = .proceed (s.checked input target) ∧
          ((t.after (checkPaths s)).2.after
            (settle inherited configured (s.checked input target))).1.1 = .ok settings ∧
          ((∃ report,
            run.1.1 = .proceed { s.checked input target with report := report.value } ∧
            Delivered settings input part target (t.after (checkPaths s)).2 run.2 report) ∨
          ∃ c, run.1.1 = .crash (.unencodable c) ∧
            Stranded settings input part (t.after (checkPaths s)).2 run.2 c)) := by
  obtain ⟨⟨ending, told⟩, t'⟩ := run
  rcases hcheck : t.after (checkPaths s) with ⟨⟨ending₁, told₁⟩, t₁⟩
  obtain ⟨hgrows, hfails | ⟨input, target, hinput, htarget, rfl⟩⟩ := checkPaths_cases hcheck
  · -- the second stage does not take place
    refine ⟨hgrows, Or.inl ?_⟩
    rw [runStages, after_bind, hcheck] at h
    obtain ⟨⟨rfl, -⟩, rfl⟩ : (ending₁ = ending ∧ _) ∧ t₁ = t' := by
      rcases hfails with rfl | ⟨c, rfl⟩ <;> simpa using h
    exact ⟨hfails, Or.inl rfl⟩
  · refine ⟨hgrows, ?_⟩
    have hpart : s.part? = target.part? := by rw [State.part?, htarget, Option.bind_some]
    rcases hstage : t₁.after (transformFile inherited configured listener
      (s.checked input target)) with ⟨⟨ending₂, told₂⟩, t₂⟩
    obtain ⟨rfl, rfl⟩ : ending₂ = ending ∧ t₂ = t' := by
      rw [runStages, after_bind, hcheck] at h
      simp only [runStages, after_bind, hstage] at h
      cases ending₂ <;> simp at h <;> exact ⟨h.1.1, h.2⟩
    -- the second stage takes place in the tree that the first has left
    rcases transformFile_cases rfl rfl hstage with
      ⟨settings, part, report, hsettle, hpart', hending, hdelivered⟩ | hfailed |
      ⟨settings, part, c, hsettle, hpart', hending, hstranded⟩
    · exact Or.inr ⟨input, target, part, settings, hinput, htarget, hpart.trans hpart', rfl,
        hsettle, Or.inl ⟨report, hending, hdelivered⟩⟩
    · rw [hpart]
      exact Or.inl hfailed
    · exact Or.inr ⟨input, target, part, settings, hinput, htarget, hpart.trans hpart', rfl,
        hsettle, Or.inr ⟨c, hending, hstranded⟩⟩

/-! ### All or nothing -/

/-- No file is at a path, if there is one. -/
def Tree.Free (t : Tree) (beside : Option Path) : Prop :=
  ∀ part, beside = some part → ∀ bytes, t.seen (t.place part) ≠ some (.file bytes)

theorem Tree.Free.of_grows (hfree : t.Free s.part?) (h : Grows t t') : t'.Free s.part? := by
  intro part hpart bytes hfile
  rw [place_of_here_eq h.here] at hfile
  exact hfree part hpart bytes (h.seen_eq_file_iff.1 hfile)

/-- Where neither a file nor a directory is, there is nothing. -/
theorem update_none_eq_seen {place : List FileName}
    (hfile : ∀ bytes, t.seen place ≠ some (.file bytes))
    (hdirectory : t.seen place ≠ some .directory) : Function.update t.seen place none = t.seen := by
  rw [Function.update_eq_self_iff]
  cases hseen : t.seen place with
  | none => rfl
  | some entry =>
    cases entry with
    | file bytes => exact absurd hseen (hfile bytes)
    | directory => exact absurd hseen hdirectory

theorem Restored.seen_eq {beside : Option Path} (h : Restored beside t t') (hfree : t.Free beside) :
    t'.seen = t.seen := by
  rcases h with heq | ⟨part, hpart, hdirectory, heq⟩
  · exact heq
  · rw [heq, update_none_eq_seen (hfree part hpart) hdirectory]

/-- **A run is all or nothing, unless a mark cannot be written.**  Where no file is beside the
target, the run goes through, and then the output of the input is at the target; or it fails.
Nothing else has changed since the paths were checked, and there is no file beside the target.  Only
at a mark that cannot be written the run breaks off and leaves there what has been written. -/
theorem run_allOrNothing (t : Tree) (s : State) (inherited : List (String × List CodePoint))
    (configured : Settings) (listener : Value) (hfree : t.Free s.part?) :
    let checked := t.after (checkPaths s)
    let run := t.after (runStages s [checkPaths, transformFile inherited configured listener])
    ((∀ part, s.part? = some part → ∀ bytes, run.2.seen (t.place part) ≠ some (.file bytes)) ∧
      ((∃ input target settings bytes out units blocks,
          s.input? = some input ∧ s.target? = some target ∧
          checked.1.1 = .proceed (s.checked input target) ∧
          (checked.2.after (settle inherited configured (s.checked input target))).1.1 =
            .ok settings ∧
          t.seen (t.place input) = some (.file bytes) ∧
          settings.Turns bytes out units blocks ∧
          run.1.1 = .proceed { s.checked input target with
            report := Report.value ⟨target.text, units, blocks, blocks⟩ } ∧
          run.2.seen = Function.update checked.2.seen (t.place target) (some (.file out))) ∨
        (run.1.1.Fails ∧ run.2.seen = checked.2.seen))) ∨
      ∃ input target part settings bytes out c,
        s.input? = some input ∧ s.target? = some target ∧ s.part? = some part ∧
        (checked.2.after (settle inherited configured (s.checked input target))).1.1 =
          .ok settings ∧
        t.seen (t.place input) = some (.file bytes) ∧
        settings.StopsAt bytes input.toString out c ∧
        run.1.1 = .crash (.unencodable c) ∧
        run.2.seen = Function.update checked.2.seen (t.place part) (some (.file out)) := by
  intro checked run
  obtain ⟨hgrows, hcases⟩ := run_cases (show t.after _ = run from rfl)
  have hfree₁ : checked.2.Free s.part? := hfree.of_grows hgrows
  have hplace (p : Path) : checked.2.place p = t.place p := place_of_here_eq hgrows.here p
  rcases hcases with ⟨hfails, hrestored⟩ | ⟨input, target, part, settings, hinput, htarget, hpart,
    hchecked, hsettle, hended⟩
  · have hseen := hrestored.seen_eq hfree₁
    refine Or.inl ⟨?_, Or.inr ⟨hfails, hseen⟩⟩
    intro part hpart bytes hfile
    rw [hseen, ← hplace] at hfile
    exact hfree₁ part hpart bytes hfile
  -- the input is a file, so it is not beside the target
  have happart {bytes : List UInt8}
      (hread : checked.2.seen (checked.2.place input) = some (.file bytes)) :
      checked.2.place input ≠ checked.2.place part := by
    intro hsame
    rw [hsame] at hread
    exact hfree₁ part hpart bytes hread
  rcases hended with ⟨report, hending, hdelivered⟩ | ⟨c, hending, hstranded⟩
  · obtain ⟨bytes, out, blocks, hread, hturned, hseen⟩ := hdelivered.written
    obtain ⟨hturns, hreport⟩ := hturned (happart hread)
    have hapart := hdelivered.apart
    rw [update_none_eq_seen (hfree₁ part hpart) hdelivered.free] at hseen
    rw [hplace] at hread hseen
    rw [hplace, hplace] at hapart
    refine Or.inl ⟨?_, Or.inl ⟨input, target, settings, bytes, out, report.units, blocks, hinput,
      htarget, hchecked, hsettle, hgrows.seen_eq_file_iff.1 hread, hturns, ?_, hseen⟩⟩
    · intro part' hpart' bytes' hfile
      obtain rfl : part = part' := Option.some.inj (hpart.symm.trans hpart')
      rw [hseen, Function.update_of_ne hapart.symm, ← hplace] at hfile
      exact hfree₁ part hpart bytes' hfile
    · rw [← hreport]
      exact hending
  · obtain ⟨bytes, out, hread, hstops, hseen⟩ := hstranded.left
    have hstopped := hstops (happart hread)
    rw [hplace] at hread hseen
    exact Or.inr ⟨input, target, part, settings, bytes, out, c, hinput, htarget, hpart, hsettle,
      hgrows.seen_eq_file_iff.1 hread, hstopped, hending, hseen⟩

/-- A directory with what it holds under names that are strings. -/
def Node.holding (entries : List (String × Node)) : Node :=
  directory (entries.map fun entry => (.ofString entry.1, entry.2))

/-- A file with a text. -/
def Entry.ofString (s : String) : Entry := .file (Text.Utf8.encode s.toList)

/-- The same as a node. -/
def Node.ofString (s : String) : Node := file (Text.Utf8.encode s.toList)

/-- An input, and what an earlier run has made of it, in a directory for the work. -/
def worked : Tree where
  root := .holding [("work", .holding
    [("in", .holding [("a.txt", .ofString "a\n b\n")]),
      ("out", .holding [("a.txt.idd", .ofString "old")])])]
  here := [.ofString "work"]

/-- What a run with two directories, one of them by its path from the root, asks for. -/
def asking (inputFile outputFile : List CodePoint) : State where
  arguments := { inputFile := .text inputFile, outputFile := .text outputFile }
  inputDir := .ofString "in"
  outputDir := .ofString "/work/out"

theorem part?_asking : (asking "a.txt" "").part? = some (.ofString "/work/out/a.txt.idd.part") := by
  decide +kernel

theorem free_worked {s : State} (h : s.part? = some (.ofString "/work/out/a.txt.idd.part")) :
    worked.Free s.part? := by
  intro part hpart bytes
  obtain rfl := Option.some.inj (h.symm.trans hpart)
  have hnone : worked.seen (worked.place (.ofString "/work/out/a.txt.idd.part")) = none := by
    decide +kernel
  simp [hnone]

/-- A run with such an input goes through. -/
theorem exists_proceed_worked :
    ∃ final, (worked.after (runStages (asking "a.txt" "")
      [checkPaths, transformFile [] {} (.int 1)])).1.1 = .proceed final :=
  Ending.exists_of_isSome (by decide +kernel)

/-- The output of an earlier run is replaced. -/
theorem run_replaces_output :
    worked.Free (asking "a.txt" "").part? ∧
      let run := worked.after (runStages (asking "a.txt" "")
        [checkPaths, transformFile [] {} (.int 1)])
      run.2.seen (worked.place (.ofString "/work/out/a.txt.idd.part")) = none ∧
        ¬ run.1.1.Fails ∧
        run.2.seen (worked.place (.ofString "out/a.txt.idd")) = some (.ofString "a\n>b\n<") := by
  have hfree : worked.Free (asking "a.txt" "").part? := free_worked part?_asking
  have hout : (worked.after (runStages (asking "a.txt" "")
      [checkPaths, transformFile [] {} (.int 1)])).2.seen
        (worked.place (.ofString "out/a.txt.idd")) = some (.ofString "a\n>b\n<") := by
    decide +kernel
  obtain ⟨final, hfinal⟩ := exists_proceed_worked
  have hdirectory : (worked.after (runStages (asking "a.txt" "")
      [checkPaths, transformFile [] {} (.int 1)])).2.seen
        (worked.place (.ofString "/work/out/a.txt.idd.part")) ≠ some .directory := by
    decide +kernel
  refine ⟨hfree, ?_, ?_, hout⟩
  · rcases run_allOrNothing worked (asking "a.txt" "") [] {} (.int 1) hfree with
      ⟨hgone, -⟩ | ⟨input, target, part, settings, bytes, out, c, -, -, -, -, -, -, hcrash, -⟩
    · cases hseen : (worked.after (runStages (asking "a.txt" "")
          [checkPaths, transformFile [] {} (.int 1)])).2.seen
            (worked.place (.ofString "/work/out/a.txt.idd.part")) with
      | none => rfl
      | some entry =>
        cases entry with
        | file bytes => exact absurd hseen (hgone _ part?_asking bytes)
        | directory => exact absurd hseen hdirectory
    · rw [hfinal] at hcrash
      cases hcrash
  · rw [hfinal]
    simp [Ending.Fails]

/-- The name of an output may hold a byte that is part of no character. -/
example :
    let run := worked.after (runStages (asking "a.txt" [.surrogate 0x480])
      [checkPaths, transformFile [] {} (.int 1)])
    run.2.seen [.ofString "work", .ofString "out", [0x80]] = some (.ofString "a\n>b\n<") := by
  decide +kernel

/-- A run whose mark of an opening block is a byte that is part of no character. -/
def marking (c : CodePoint) : State :=
  let plain := asking "a.txt" ""
  { plain with arguments := { plain.arguments with indentChar := .text [c] } }

/-- **A run may leave a part of its output**: a mark that cannot be written passes every check, and
the run breaks off at it. -/
theorem part_left_at_mark :
    let s := marking (.surrogate 0x480)
    let run := worked.after (runStages s [checkPaths, transformFile [] {} (.int 1)])
    worked.Free s.part? ∧ run.1.1.Fails ∧
      s.part? = some (.ofString "/work/out/a.txt.idd.part") ∧
      run.2.seen (worked.place (.ofString "/work/out/a.txt.idd.part")) =
        some (.ofString "a\n") := by
  intro s run
  have hpart : s.part? = some (.ofString "/work/out/a.txt.idd.part") := by
    decide +kernel
  have hleft : run.2.seen (worked.place (.ofString "/work/out/a.txt.idd.part")) =
      some (.ofString "a\n") := by
    decide +kernel
  have hfails : run.1.1.Fails := by
    have hstops : run.1.1.state? = none := Option.isNone_iff_eq_none.1 (by decide +kernel)
    obtain ⟨-, ⟨hfails, -⟩ | ⟨input, target, part, settings, -, -, -, -, -, hended⟩⟩ :=
      run_cases (show worked.after _ = run from rfl)
    · exact hfails
    · rcases hended with ⟨report, hgoes, -⟩ | ⟨c, hcrash, -⟩
      · rw [hgoes] at hstops
        cases hstops
      · exact Or.inr ⟨_, hcrash⟩
  exact ⟨free_worked hpart, hfails, hpart, hleft⟩

/-- Where there is no room for all of the output, a part of it is written and taken away again. -/
example :
    let full := { worked with capacity := some 10 }
    let run := full.after (runStages (asking "a.txt" "")
      [checkPaths, transformFile [] {} (.int 1)])
    run.1.1.state?.isNone ∧
      run.2.seen (full.place (.ofString "out/a.txt.idd")) = some (.ofString "old") ∧
      run.2.seen (full.place (.ofString "out/a.txt.idd.part")) = none := by
  decide +kernel

/-! ### Files that are kept -/

/-- **All other files are kept.**  Whether the run goes through or fails, every file that is neither
at the target nor beside it is as it was; and the output is that of the input before the run, if
the input is not beside the target. -/
theorem run_keeps_files (t : Tree) (s : State) (inherited : List (String × List CodePoint))
    (configured : Settings) (listener : Value) :
    let run := t.after (runStages s [checkPaths, transformFile inherited configured listener])
    (∀ place bytes, t.seen place = some (.file bytes) →
        (∀ target, s.target? = some target → place ≠ t.place target) →
        (∀ part, s.part? = some part → place ≠ t.place part) →
        run.2.seen place = some (.file bytes)) ∧
      ∀ final, run.1.1 = .proceed final →
        ∃ input target part settings bytes out units blocks,
          s.input? = some input ∧ s.target? = some target ∧ s.part? = some part ∧
          ((t.after (checkPaths s)).2.after
            (settle inherited configured (s.checked input target))).1.1 = .ok settings ∧
          t.seen (t.place input) = some (.file bytes) ∧
          run.2.seen (t.place target) = some (.file out) ∧
          (t.place input ≠ t.place part → settings.Turns bytes out units blocks) := by
  intro run
  obtain ⟨hgrows, hcases⟩ := run_cases (show t.after _ = run from rfl)
  have hplace (p : Path) : (t.after (checkPaths s)).2.place p = t.place p :=
    place_of_here_eq hgrows.here p
  rcases hcases with ⟨hfails, hrestored⟩ |
    ⟨input, target, part, settings, hinput, htarget, hpart, -, hsettle, hended⟩
  · refine ⟨?_, ?_⟩
    · intro place contents hfile _ hbeside
      -- making directories has changed no file
      have hfile₁ := hgrows.seen_eq_file_iff.2 hfile
      rcases hrestored with heq | ⟨part, hpart, -, heq⟩
      · rwa [heq]
      · rwa [heq, hplace, Function.update_of_ne (hbeside part hpart)]
    · intro final hproceed
      rw [hproceed] at hfails
      rcases hfails with hexit | ⟨c, hcrash⟩
      · simp at hexit
      · simp at hcrash
  rcases hended with ⟨report, -, hdelivered⟩ | ⟨c, hending, hstranded⟩
  · -- the two places that were written to are the target and the one beside it
    obtain ⟨bytes, out, blocks, hread, hturned, hseen⟩ := hdelivered.written
    rw [hplace] at hread hturned
    rw [hplace, hplace] at hseen
    refine ⟨?_, fun _ _ => ⟨input, target, part, settings, bytes, out, report.units, blocks,
      hinput, htarget, hpart, hsettle, hgrows.seen_eq_file_iff.1 hread, ?_, ?_⟩⟩
    · intro place contents hfile hother hbeside
      rw [hseen, Function.update_of_ne (hother target htarget),
        Function.update_of_ne (hbeside part hpart)]
      exact hgrows.seen_eq_file_iff.2 hfile
    · rw [hseen, Function.update_self]
    · intro hapart
      rw [← hplace part] at hapart
      exact (hturned hapart).1
  · -- what is left behind is beside the target
    obtain ⟨bytes, out, -, -, hseen⟩ := hstranded.left
    refine ⟨?_, fun final hproceed => ?_⟩
    · intro place contents hfile _ hbeside
      rw [hseen, hplace, Function.update_of_ne (hbeside part hpart)]
      exact hgrows.seen_eq_file_iff.2 hfile
    · rw [hproceed] at hending
      cases hending

/-- The input of a run is kept, and its output is made of it. -/
theorem run_keeps_input :
    let place := worked.place (.ofString "in/a.txt")
    (worked.seen place = some (.ofString "a\n b\n") ∧
        (∀ target, (asking "a.txt" "").target? = some target → place ≠ worked.place target) ∧
        ∀ part, (asking "a.txt" "").part? = some part → place ≠ worked.place part) ∧
      let run := worked.after (runStages (asking "a.txt" "")
        [checkPaths, transformFile [] {} (.int 1)])
      run.2.seen place = some (.ofString "a\n b\n") ∧
        ∃ final, run.1.1 = .proceed final ∧ ∃ input target part settings out units blocks,
          (asking "a.txt" "").input? = some input ∧ (asking "a.txt" "").target? = some target ∧
            (asking "a.txt" "").part? = some part ∧ worked.place input ≠ worked.place part ∧
            run.2.seen (worked.place target) = some (.file out) ∧
            Settings.Turns settings (Text.Utf8.encode "a\n b\n".toList) out units blocks := by
  intro place
  have hfile : worked.seen place = some (.ofString "a\n b\n") := by
    decide +kernel
  have hinput : (asking "a.txt" "").input? = some (.ofString "in/a.txt") := by
    decide +kernel
  have htarget : (asking "a.txt" "").target? = some (.ofString "/work/out/a.txt.idd") := by
    decide +kernel
  have hplace : ∀ target, (asking "a.txt" "").target? = some target →
      place ≠ worked.place target := by
    intro target h
    obtain rfl := Option.some.inj (htarget.symm.trans h)
    decide +kernel
  have hbeside : ∀ part, (asking "a.txt" "").part? = some part → place ≠ worked.place part := by
    intro part h
    obtain rfl := Option.some.inj (part?_asking.symm.trans h)
    decide +kernel
  obtain ⟨hkept, hmade⟩ := run_keeps_files worked (asking "a.txt" "") [] {} (.int 1)
  refine ⟨⟨hfile, hplace, hbeside⟩, hkept _ _ hfile hplace hbeside, ?_⟩
  obtain ⟨final, hfinal⟩ := exists_proceed_worked
  obtain ⟨input, target, part, settings, bytes, out, units, blocks, hinput', htarget', hpart', -,
    hread, hout, hturns⟩ := hmade final hfinal
  obtain rfl := Option.some.inj (hinput.symm.trans hinput')
  have hapart : place ≠ worked.place part := hbeside part hpart'
  obtain rfl := Entry.file.inj (Option.some.inj (hfile.symm.trans hread))
  exact ⟨final, hfinal, _, target, part, settings, out, units, blocks, hinput, htarget', hpart',
    hapart, hout, hturns hapart⟩

/-- Notes beside the output of one input, and another input beside its own output. -/
def crowded : Tree where
  root := .holding [("work", .holding
    [("in", .holding [("a.txt", .ofString "a\n b\n")]),
      ("out", .holding
        [("a.txt.idd.part", .ofString "notes\n"), ("b.part", .ofString "a\n b\n")])])]
  here := [.ofString "work"]

/-- **A file beside the target is not kept**, and if it is the input, the output is not made of
what it was. -/
theorem not_kept_beside :
    let noted := crowded.after (runStages (asking "a.txt" "")
      [checkPaths, transformFile [] {} (.int 1)])
    let emptied := crowded.after (runStages (asking "../out/b.part" "b")
      [checkPaths, transformFile [] {} (.int 1)])
    (crowded.seen (crowded.place (.ofString "out/a.txt.idd.part")) = some (.ofString "notes\n") ∧
        (asking "a.txt" "").target? = some (.ofString "/work/out/a.txt.idd") ∧
        noted.2.seen (crowded.place (.ofString "out/a.txt.idd.part")) = none) ∧
      crowded.seen (crowded.place (.ofString "in/../out/b.part")) = some (.ofString "a\n b\n") ∧
        (asking "../out/b.part" "b").input? = some (.ofString "in/../out/b.part") ∧
        (asking "../out/b.part" "b").target? = some (.ofString "/work/out/b") ∧
        emptied.2.seen (crowded.place (.ofString "out/b.part")) = none ∧
        emptied.2.seen (crowded.place (.ofString "out/b")) = some (.file []) ∧
        (transform { rest := "a\n b\n".codePoints : TextSource }
          ({} : Settings).options).outcome.toOption = some "a\n>b\n<".codePoints := by
  decide +kernel

end Offside
