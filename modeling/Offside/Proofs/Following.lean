import Offside.Proofs.Places

/-!
# Following a path

Where a path leads is said by its names alone: two dots take back the name before them.  So what an
operation on files changes can be said in terms of places, whether the path is read from the root
or from the working directory, and a path can be followed for as long as the directories on the way
are there.

## Main definitions

* `Tree.seen` — what is found at a place.
* `Tree.Lies` — the place is one in a directory.
* `Tree.Filled` — a file has other contents, and nothing else is changed.
* `Tree.Grows` — directories are added, and nothing else.

## Main results

* `Tree.follow_eq_ok` — a path that can be followed leads to its place.
* `Tree.Filled.append`, `Tree.Filled.remove`, `Tree.Filled.rename` — what the operations change.
* `Tree.grows_makeDirectory` — making directories changes no file.
-/

namespace Offside

/-! ### Places of paths -/

namespace Path

/-- A name that is not two dots is the last of its place. -/
theorem placeOf_concat {name : FileName} (names : List FileName) (hname : name ≠ FileName.dots) :
    placeOf (names ++ [name]) = placeOf names ++ [name] := by
  simp [placeOf, leadOn, hname]

theorem name_eq_getLast {p : Path} (h : p.parts ≠ []) : p.name = p.parts.getLast h := by
  rw [name, List.getLastD_eq_getLast?, List.getLast?_eq_some_getLast h, Option.getD_some]

end Path

namespace Tree

variable {t t' t₁ : Tree} {p : Path} {place init gone names : List FileName} {name : FileName}
  {bytes more : List UInt8} {node : Option Node}

/-- What is found at a place. -/
def seen (t : Tree) (place : List FileName) : Option Entry := t.root.seen place

theorem place_of_here_eq (h : t'.here = t.here) (p : Path) : t'.place p = t.place p := by
  rw [Tree.place, Tree.names, h]
  rfl

theorem place_of_parts_eq {parts : List (List CodePoint)} {text : List CodePoint} (t : Tree)
    (hparts : p.parts = parts ++ [text]) (htext : FileName.ofText text ≠ FileName.dots) :
    ∃ init, t.place p = init ++ [FileName.ofText text] := by
  rw [Tree.place, Tree.names, hparts, List.map_append, List.map_singleton,
    ← List.append_assoc]
  split
  · exact ⟨_, Path.placeOf_concat _ htext⟩
  · exact ⟨_, Path.placeOf_concat _ htext⟩

/-! ### Going through names -/

/-- The place is one in a directory. -/
def Lies (t : Tree) (place : List FileName) : Prop :=
  ∀ init name, place = init ++ [name] → t.seen init = some .directory

/-- A name leads on from a directory. -/
theorem walk_cons_eq_ok_iff : t.walk gone (name :: names) = .ok () ↔
    t.seen gone.reverse = some .directory ∧ ¬ longestName < name.length ∧
      t.walk (Path.leadOn gone name) names = .ok () := by
  rw [walk, seen, Node.seen]
  rcases t.root.at? gone.reverse with _ | bytes | entries
  · simp
  · simp [Node.entry]
  · by_cases hlong : longestName < name.length
    · simp [hlong]
    · simp [Node.entry, hlong]

/-- Names that can be gone through lead to a place in a directory. -/
theorem Lies.of_walk (hgone : t.Lies gone.reverse) (h : t.walk gone names = .ok ()) :
    t.Lies (names.foldl Path.leadOn gone).reverse := by
  induction names generalizing gone with
  | nil => exact hgone
  | cons name rest ih =>
    obtain ⟨hdir, -, hrest⟩ := walk_cons_eq_ok_iff.1 h
    refine ih ?_ hrest
    rw [Path.leadOn]
    split
    · -- the directory that two dots lead back to is there, since the one before is
      intro init last hback
      have hprefix : init ++ [last] <+: gone.reverse := by
        rw [← hback, ← List.dropLast_reverse]
        exact List.dropLast_prefix _
      obtain ⟨after, hgone⟩ := hprefix
      by_contra hinit
      rw [← hgone, List.append_assoc, seen,
        Node.seen_append_of_ne_directory hinit (by simp)] at hdir
      simp at hdir
    · intro init last hplace
      rw [List.reverse_cons] at hplace
      obtain ⟨rfl, -⟩ := List.append_inj' hplace rfl
      exact hdir

/-- Where all directories are kept, names that could be gone through still can. -/
theorem walk_of_keeps
    (hkeeps : ∀ q, t.seen q = some .directory → t'.seen q = some .directory)
    (h : t.walk gone names = .ok ()) : t'.walk gone names = .ok () := by
  induction names generalizing gone with
  | nil => rfl
  | cons name rest ih =>
    obtain ⟨hdir, hshort, hrest⟩ := walk_cons_eq_ok_iff.1 h
    exact walk_cons_eq_ok_iff.2 ⟨hkeeps _ hdir, hshort, ih hrest⟩

theorem walk_ne_badPath (t : Tree) (gone names : List FileName) :
    t.walk gone names ≠ .error .badPath := by
  induction names generalizing gone with
  | nil => simp [walk]
  | cons name rest ih =>
    rw [walk]
    split
    · simp
    · simp
    · split
      · simp
      · exact ih _

/-! ### Following a path -/

theorem follow_eq_ok_iff : t.follow p = .ok (place, node) ↔
    0 ∉ p.bytes ∧ ¬ longestPath < p.bytes.length ∧
      t.walk [] (t.names p) = .ok () ∧ t.place p = place ∧ t.root.at? (t.place p) = node := by
  rw [follow]
  by_cases hnull : 0 ∈ p.bytes
  · simp [hnull]
  · rw [if_neg hnull]
    by_cases hlong : longestPath < p.bytes.length
    · simp [hlong]
    · rw [if_neg hlong]
      cases hwalk : t.walk [] (t.names p) with
      | error e => simp [Except.map]
      | ok u => simp [Except.map, hnull, hlong]

/-- **A path that can be followed leads to its place**, which is one in a directory. -/
theorem follow_eq_ok (h : t.follow p = .ok (place, node)) :
    place = t.place p ∧ node = t.root.at? (t.place p) ∧ t.Lies (t.place p) := by
  obtain ⟨-, -, hwalk, rfl, rfl⟩ := follow_eq_ok_iff.1 h
  have hroot : t.Lies (List.reverse []) := by
    intro init name hnil
    simp at hnil
  exact ⟨rfl, rfl, hroot.of_walk hwalk⟩

/-- Where all directories are kept, a path that could be followed still can. -/
theorem follow_of_keeps (hhere : t'.here = t.here)
    (hkeeps : ∀ q, t.seen q = some .directory → t'.seen q = some .directory)
    (h : t.follow p = .ok (place, node)) :
    t'.follow p = .ok (t.place p, t'.root.at? (t.place p)) := by
  obtain ⟨hnull, hshort, hwalk, -, -⟩ := follow_eq_ok_iff.1 h
  have hnames : t'.names p = t.names p := by
    rw [Tree.names, hhere]
    rfl
  have hplace := place_of_here_eq hhere p
  have hwalk' := walk_of_keeps hkeeps hwalk
  exact follow_eq_ok_iff.2 ⟨hnull, hshort, hnames ▸ hwalk', hplace, by rw [hplace]⟩

theorem find_eq_ok_iff {found : Node} :
    t.find p = .ok (place, found) ↔ t.follow p = .ok (place, some found) := by
  rw [find]
  rcases t.follow p with e | ⟨_, _ | _⟩ <;> simp

/-- A path is a bad one only for a character that no path can have. -/
theorem follow_eq_badPath_iff : t.follow p = .error .badPath ↔ 0 ∈ p.bytes := by
  rw [follow]
  by_cases hnull : 0 ∈ p.bytes
  · simp [hnull]
  · rw [if_neg hnull]
    refine iff_of_false ?_ hnull
    split
    · simp
    · cases hwalk : t.walk [] (t.names p) with
      | ok u => simp [Except.map]
      | error e =>
        have hne := t.walk_ne_badPath [] (t.names p)
        rw [hwalk] at hne
        simpa [Except.map] using hne

/-! ### Reading -/

theorem seen_of_at? (h : some (Node.file bytes) = t.root.at? place) :
    t.seen place = some (.file bytes) := by
  rw [seen, Node.seen, ← h]
  rfl

theorem at?_of_seen (h : t.seen place = some (.file bytes)) :
    t.root.at? place = some (.file bytes) := by
  rw [seen, Node.seen, Option.map_eq_some_iff] at h
  obtain ⟨found, hfind, hentry⟩ := h
  rw [hfind, Node.entry_eq_file_iff.1 hentry]

theorem read_eq_ok (h : t.read p = .ok bytes) : t.seen (t.place p) = some (.file bytes) := by
  rw [read] at h
  split at h
  · simp at h
  · simp at h
  · next place bytes' hfind =>
    obtain rfl : bytes' = bytes := by simpa using h
    obtain ⟨-, hnode, -⟩ := follow_eq_ok (find_eq_ok_iff.1 hfind)
    exact seen_of_at? hnode

theorem read_eq_badPath_iff : t.read p = .error .badPath ↔ 0 ∈ p.bytes := by
  rw [← follow_eq_badPath_iff (t := t), read, find]
  rcases t.follow p with e | ⟨place, _ | bytes | entries⟩ <;> simp

/-! ### Writing -/

/-- A file has other contents, and nothing else is changed. -/
structure Filled (t : Tree) (p : Path) (bytes : List UInt8) (t' : Tree) : Prop where
  here : t'.here = t.here
  seen : t'.seen = Function.update t.seen (t.place p) (some (.file bytes))

theorem seen_ne_directory_of_at? (h : ∀ entries, t.root.at? place ≠ some (.directory entries)) :
    t.seen place ≠ some .directory := by
  intro hdir
  obtain ⟨entries, hfind⟩ := Node.exists_of_seen_eq_directory hdir
  exact h entries hfind

theorem follow_of_create (h : t.create p = .ok t') :
    ∃ place node, t.follow p = .ok (place, node) ∧
      (∀ entries, node ≠ some (.directory entries)) ∧
      t' = { t with root := t.root.put (.file []) place } := by
  rw [create] at h
  split at h
  · simp at h
  · simp at h
  · next place node hnode hfollow =>
    exact ⟨place, node, hfollow, hnode, by simpa using h.symm⟩

/-- **Opening a file to write it changes one place**, where no directory is. -/
theorem filled_create (h : t.create p = .ok t') :
    t.seen (t.place p) ≠ some .directory ∧ t.Filled p [] t' := by
  obtain ⟨place, node, hfollow, hnode, rfl⟩ := follow_of_create h
  obtain ⟨rfl, rfl, hlies⟩ := follow_eq_ok hfollow
  have hdirectory := seen_ne_directory_of_at? hnode
  exact ⟨hdirectory, rfl, Node.seen_put [] hlies hdirectory⟩

theorem create_eq_badPath_iff : t.create p = .error .badPath ↔ 0 ∈ p.bytes := by
  rw [← follow_eq_badPath_iff (t := t), create]
  rcases t.follow p with e | ⟨place, _ | bytes | entries⟩ <;> simp

theorem append_eq_badPath_iff :
    t.append p more = .error .badPath ↔ 0 ∈ p.bytes := by
  rw [← follow_eq_badPath_iff (t := t), append, find]
  rcases t.follow p with e | ⟨place, _ | bytes | entries⟩
  · simp
  · simp
  · by_cases hroom : t.hasRoom more.length = true <;> simp [hroom]
  · simp

namespace Filled

/-- What is found in the file. -/
theorem seen_self (h : t.Filled p bytes t') : t'.seen (t.place p) = some (.file bytes) := by
  rw [h.seen, Function.update_self]

/-- All directories are kept. -/
theorem keeps (h : t.Filled p bytes t') (hdirectory : t.seen (t.place p) ≠ some .directory)
    (q : List FileName) (hq : t.seen q = some .directory) : t'.seen q = some .directory := by
  rw [h.seen, Function.update_of_ne, hq]
  rintro rfl
  exact hdirectory hq

/-- **More bytes are added to those that are there.** -/
theorem append (h : t.Filled p bytes t₁) (happend : t₁.append p more = .ok t') :
    t.Filled p (bytes ++ more) t' := by
  rw [Tree.append] at happend
  split at happend
  · simp at happend
  · simp at happend
  · next place before hfind =>
    split at happend
    · obtain rfl : _ = t' := by simpa using happend
      obtain ⟨rfl, hnode, hlies⟩ := follow_eq_ok (find_eq_ok_iff.1 hfind)
      have hbefore := seen_of_at? hnode
      rw [place_of_here_eq h.here, h.seen_self] at hbefore
      obtain rfl : bytes = before := by simpa using hbefore
      refine ⟨h.here, ?_⟩
      have hfree : t₁.seen (t₁.place p) ≠ some .directory := by
        rw [place_of_here_eq h.here, h.seen_self]
        simp
      refine (Node.seen_put (bytes ++ more) hlies hfree).trans ?_
      rw [place_of_here_eq h.here]
      exact (congrArg (Function.update · _ _) h.seen).trans (Function.update_idem _ _ _)
    · simp at happend

end Filled

/-! ### Removing and moving -/

/-- **Removing changes one place.** -/
theorem seen_remove (h : t.remove p = .ok t') (hplace : t.place p = init ++ [name]) :
    t'.here = t.here ∧ (∃ bytes, t.seen (t.place p) = some (.file bytes)) ∧
      t'.seen = Function.update t.seen (t.place p) none := by
  rw [remove] at h
  split at h
  · simp at h
  · simp at h
  · next place bytes hfind =>
    obtain rfl : _ = t' := by simpa using h
    obtain ⟨rfl, hnode, -⟩ := follow_eq_ok (find_eq_ok_iff.1 hfind)
    have hfile := seen_of_at? hnode
    refine ⟨rfl, ⟨bytes, hfile⟩, ?_⟩
    rw [hplace] at hfile ⊢
    exact Node.seen_erase hfile

/-- A file that has been opened to be written can be removed. -/
theorem Filled.remove {t₀ : Tree} (h : t.Filled p bytes t₁) (hcreate : t.create p = .ok t₀)
    (hplace : t.place p = init ++ [name]) :
    ∃ t', t₁.remove p = .ok t' ∧ t'.here = t.here ∧
      t'.seen = Function.update t.seen (t.place p) none := by
  obtain ⟨hdirectory, -⟩ := filled_create hcreate
  obtain ⟨place, node, hfollow, -⟩ := follow_of_create hcreate
  have hfile := at?_of_seen h.seen_self
  have hremove : t₁.remove p = .ok { t₁ with root := t₁.root.erase (t.place p) } := by
    rw [Tree.remove, find, follow_of_keeps h.here (h.keeps hdirectory) hfollow, hfile]
  have hplace' := place_of_here_eq h.here p
  obtain ⟨hhere, -, hseen⟩ := seen_remove hremove (hplace'.trans hplace)
  refine ⟨_, hremove, hhere.trans h.here, ?_⟩
  rw [hseen, hplace', h.seen, Function.update_idem]

/-- A path that ends in a name has it as the last of its place. -/
theorem place_of_endsInName (t : Tree) (h : endsInName p = true) :
    ∃ init, t.place p = init ++ [FileName.ofText p.name] := by
  obtain ⟨hparts, hname⟩ : p.parts ≠ [] ∧ FileName.ofText p.name ≠ FileName.dots := by
    simpa [endsInName] using h
  have hlast : p.parts = p.parts.dropLast ++ [p.name] := by
    rw [Path.name_eq_getLast hparts, List.dropLast_concat_getLast]
  exact t.place_of_parts_eq hlast hname

theorem endsInName_of_rename {q : Path} (h : t.rename p q = .ok t') :
    endsInName p = true ∧ endsInName q = true := by
  rw [rename] at h
  split at h
  · simp at h
  · simp at h
  · split at h
    · simp at h
    · next hends => rwa [not_or, Bool.not_eq_false, Bool.not_eq_false] at hends

/-- A file moves to where no directory is, in a directory. -/
theorem eq_of_rename {q : Path} (h : t.rename p q = .ok t')
    (hfile : t.seen (t.place p) = some (.file bytes)) :
    t.seen (t.place q) ≠ some .directory ∧ t.Lies (t.place q) ∧
      t' = { t with root := (t.root.erase (t.place p)).put (.file bytes) (t.place q) } := by
  rw [rename] at h
  split at h
  · simp at h
  · simp at h
  · next fromPlace fromNode toPlace toNode hfrom hto =>
    obtain ⟨rfl, rfl, -⟩ := follow_eq_ok hfrom
    obtain ⟨rfl, rfl, hlies⟩ := follow_eq_ok hto
    rw [at?_of_seen hfile] at h
    split at h
    · simp at h
    · obtain ⟨htarget, hresult⟩ : (∀ entries, t.root.at? (t.place q) ≠ some (.directory entries)) ∧
          t' = { t with root := (t.root.erase (t.place p)).put (.file bytes) (t.place q) } := by
        rcases hnode : t.root.at? (t.place q) with _ | _ | _
        · exact ⟨by simp, by simpa [hnode] using h.symm⟩
        · exact ⟨by simp, by simpa [hnode] using h.symm⟩
        · simp [hnode] at h
      exact ⟨seen_ne_directory_of_at? htarget, hlies, hresult⟩

/-- **Moving a file changes two places.** -/
theorem seen_rename {q : Path} (h : t.rename p q = .ok t')
    (hfile : t.seen (t.place p) = some (.file bytes)) :
    t'.here = t.here ∧ t.seen (t.place q) ≠ some .directory ∧
      t'.seen = Function.update (Function.update t.seen (t.place p) none) (t.place q)
        (some (.file bytes)) := by
  obtain ⟨init, hplace⟩ := t.place_of_endsInName (endsInName_of_rename h).1
  obtain ⟨hdirectory, hlies, rfl⟩ := eq_of_rename h hfile
  refine ⟨rfl, hdirectory, ?_⟩
  have herase : (t.root.erase (t.place p)).seen = Function.update t.seen (t.place p) none := by
    rw [hplace] at hfile ⊢
    exact Node.seen_erase hfile
  -- the file is no directory, so the directory of the target is still there
  have hinit : ∀ init name, t.place q = init ++ [name] →
      (t.root.erase (t.place p)).seen init = some .directory := by
    intro init' name' hplace'
    have hdir := hlies init' name' hplace'
    rw [herase, Function.update_of_ne, hdir]
    rintro rfl
    rw [hdir] at hfile
    simp at hfile
  have hfree : (t.root.erase (t.place p)).seen (t.place q) ≠ some .directory := by
    rw [herase]
    by_cases hsame : t.place q = t.place p
    · simp [hsame]
    · rwa [Function.update_of_ne hsame]
  rw [← herase]
  exact Node.seen_put bytes hinit hfree

/-- **Moving what a file has been filled with** leaves nothing where it was. -/
theorem Filled.rename {q : Path} (h : t.Filled p bytes t₁) (hrename : t₁.rename p q = .ok t') :
    t'.here = t.here ∧
      t'.seen = Function.update (Function.update t.seen (t.place p) none) (t.place q)
        (some (.file bytes)) := by
  have hfile : t₁.seen (t₁.place p) = some (.file bytes) := by
    rw [place_of_here_eq h.here, h.seen_self]
  obtain ⟨hhere, -, hseen⟩ := seen_rename hrename hfile
  refine ⟨hhere.trans h.here, ?_⟩
  rw [hseen, place_of_here_eq h.here, place_of_here_eq h.here, h.seen, Function.update_idem]

theorem null_of_rename_eq_badPath {q : Path} (h : t.rename p q = .error .badPath) :
    0 ∈ p.bytes ∨ 0 ∈ q.bytes := by
  rw [← follow_eq_badPath_iff (t := t), ← follow_eq_badPath_iff (t := t)]
  rw [Tree.rename] at h
  rcases hp : t.follow p with e | ⟨fromPlace, fromNode⟩
  · exact Or.inl (by simpa [hp] using h)
  · rcases hq : t.follow q with e | ⟨toPlace, toNode⟩
    · exact Or.inr (by simpa [hp, hq] using h)
    · rw [hp, hq] at h
      dsimp only at h
      split at h
      · simp at h
      · rcases fromNode with _ | bytes | entries <;> rcases toNode with _ | bytes' | entries' <;>
          simp at h

/-! ### Growing trees -/

/-- Directories are added where there was nothing, and nothing else is changed. -/
structure Grows (t t' : Tree) : Prop where
  here : t'.here = t.here
  seen : ∀ q, t'.seen q = t.seen q ∨ (t.seen q = none ∧ t'.seen q = some .directory)

theorem Grows.refl (t : Tree) : Grows t t := ⟨rfl, fun _ => Or.inl rfl⟩

theorem Grows.trans {t'' : Tree} (h : Grows t t') (h' : Grows t' t'') : Grows t t'' := by
  refine ⟨h'.here.trans h.here, ?_⟩
  intro q
  rcases h.seen q with heq | ⟨hnone, hdir⟩
  · rcases h'.seen q with heq' | ⟨hnone', hdir'⟩
    · exact Or.inl (heq'.trans heq)
    · exact Or.inr ⟨heq ▸ hnone', hdir'⟩
  · rcases h'.seen q with heq' | ⟨hnone', -⟩
    · exact Or.inr ⟨hnone, heq'.trans hdir⟩
    · rw [hdir] at hnone'
      simp at hnone'

/-- Files are as they were. -/
theorem Grows.seen_eq_file_iff (h : Grows t t') :
    t'.seen place = some (.file bytes) ↔ t.seen place = some (.file bytes) := by
  rcases h.seen place with heq | ⟨hnone, hdir⟩
  · rw [heq]
  · rw [hnone, hdir]
    simp

/-- In a directory that holds nothing there is nothing. -/
theorem seen_empty_cases (q : List FileName) :
    Node.empty.seen q = none ∨ Node.empty.seen q = some .directory := by
  cases q with
  | nil => exact Or.inr rfl
  | cons name rest => exact Or.inl rfl

/-- A directory that is made is all that is changed. -/
theorem grows_makeDirectory (h : t.makeDirectory p = .ok t') : Grows t t' := by
  rw [makeDirectory] at h
  split at h
  · simp at h
  · simp at h
  · next place hfollow =>
    obtain rfl : _ = t' := by simpa using h
    obtain ⟨rfl, hnode, hlies⟩ := follow_eq_ok hfollow
    -- nothing was there, and all names before the last lead through directories
    have hfree : t.seen (t.place p) = none := by
      rw [seen, Node.seen, ← hnode]
      rfl
    refine ⟨rfl, fun q => ?_⟩
    rcases List.eq_nil_or_concat (t.place p) with hnil | ⟨init, name, hplace⟩
    · rw [hnil] at hfree
      simp [seen] at hfree
    · rw [List.concat_eq_append] at hplace
      have hdir := hlies init name hplace
      rw [hplace] at hfree ⊢
      by_cases hprefix : init ++ [name] <+: q
      · obtain ⟨rest, rfl⟩ := hprefix
        -- below it there was nothing, and there is nothing in the new directory
        have hnone : t.seen (init ++ [name] ++ rest) = none := by
          cases rest with
          | nil => simpa using hfree
          | cons first rest =>
            have hne : t.seen (init ++ [name]) ≠ some .directory := by simp [hfree]
            exact Node.seen_append_of_ne_directory hne (by simp)
        have hput : (t.root.put .empty (init ++ [name])).seen (init ++ [name] ++ rest) =
            Node.empty.seen rest := Node.seen_put_append _ _ _ _
        rw [hnone, seen, hput]
        rcases seen_empty_cases rest with hempty | hempty
        · exact Or.inl hempty
        · exact Or.inr ⟨rfl, hempty⟩
      · exact Or.inl (Node.seen_put_of_not_prefix _ hdir hprefix)

end Tree

end Offside
