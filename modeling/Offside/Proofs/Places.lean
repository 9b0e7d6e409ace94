import Mathlib.Logic.Function.Basic
import Offside.Files.Tree

/-!
# What is found at a place

Two trees are compared place by place: at each list of names there is a file with its contents, or
a directory, or nothing.  Putting a file somewhere or taking it away changes what is found at one
place, and leaves all others as they were.

## Main definitions

* `Entry` — a file or a directory.
* `Node.seen` — what is found at a place.

## Main results

* `Node.seen_put`, `Node.seen_erase` — one place is changed.
-/

namespace Offside

/-- What is found at a place. -/
inductive Entry where
  /-- A file with its contents. -/
  | file (bytes : List UInt8)
  /-- A directory. -/
  | directory
  deriving DecidableEq, Repr

namespace Node

/-! ### Nodes -/

/-- A node without what a directory holds. -/
def entry : Node → Entry
  | file bytes => .file bytes
  | directory _ => .directory

/-- What is found at a place. -/
def seen (n : Node) (place : List FileName) : Option Entry := (n.at? place).map entry

variable {n node : Node} {name other : FileName} {place init q : List FileName} {bytes : List UInt8}
  {entries : List (FileName × Node)}

theorem entry_eq_directory_iff : n.entry = .directory ↔ ∃ entries, n = directory entries := by
  cases n <;> simp [entry]

theorem entry_eq_file_iff : n.entry = .file bytes ↔ n = file bytes := by
  cases n <;> simp [entry]

@[simp] theorem seen_nil (n : Node) : n.seen [] = some n.entry := rfl

theorem seen_cons (n : Node) (name : FileName) (rest : List FileName) :
    n.seen (name :: rest) = (n.entries.lookup name).bind fun next => next.seen rest := by
  rw [seen, at?, Option.map_bind]
  rfl

theorem seen_append (n : Node) (place q : List FileName) :
    n.seen (place ++ q) = (n.at? place).bind fun next => next.seen q := by
  induction place generalizing n with
  | nil => rfl
  | cons name rest ih => simp [seen_cons, at?, ih, Option.bind_assoc]

/-- Nothing is inside a file, and nothing where nothing is. -/
theorem seen_append_of_ne_directory (h : n.seen place ≠ some .directory) (hq : q ≠ []) :
    n.seen (place ++ q) = none := by
  rw [seen_append]
  cases hfind : n.at? place with
  | none => rfl
  | some next =>
    cases next with
    | file bytes =>
      cases q with
      | nil => exact absurd rfl hq
      | cons name rest => rfl
    | directory entries => simp [seen, hfind, entry] at h

theorem exists_of_seen_eq_directory (h : n.seen place = some .directory) :
    ∃ entries, n.at? place = some (directory entries) := by
  obtain ⟨next, hfind, hentry⟩ := Option.map_eq_some_iff.1 h
  obtain ⟨entries, rfl⟩ := entry_eq_directory_iff.1 hentry
  exact ⟨entries, hfind⟩

/-! ### Changing a node -/

/-- What is put at a place is found there, with all that is in it. -/
theorem seen_put_append (n node : Node) (place q : List FileName) :
    (n.put node place).seen (place ++ q) = node.seen q := by
  induction place generalizing n with
  | nil => rfl
  | cons name rest ih =>
    rw [put, List.cons_append, seen_cons, entries_directory, lookup_setEntry, Option.bind_some, ih]

/-- Only a directory holds something. -/
theorem exists_of_lookup_eq_some (h : n.entries.lookup name = some node) :
    ∃ entries, n = directory entries := by
  cases n with
  | file bytes => simp [Node.entries] at h
  | directory entries => exact ⟨entries, rfl⟩

/-- Elsewhere nothing is changed, if the place is in a directory. -/
theorem seen_put_of_not_prefix (node : Node) (hdir : n.seen init = some .directory)
    (hother : ¬ init ++ [name] <+: q) : (n.put node (init ++ [name])).seen q = n.seen q := by
  induction init generalizing n q with
  | nil =>
    obtain ⟨entries, rfl⟩ := entry_eq_directory_iff.1 (Option.some.inj hdir)
    cases q with
    | nil => rfl
    | cons first rest =>
      have hne : first ≠ name := by
        rintro rfl
        exact hother (by simp)
      rw [List.nil_append, put, seen_cons, entries_directory, lookup_setEntry_of_ne hne, seen_cons]
  | cons first init ih =>
    rw [seen_cons, Option.bind_eq_some_iff] at hdir
    obtain ⟨next, hlookup, hnext⟩ := hdir
    obtain ⟨entries, rfl⟩ := exists_of_lookup_eq_some hlookup
    rw [List.cons_append, put, hlookup, Option.getD_some]
    cases q with
    | nil => rfl
    | cons second rest =>
      by_cases hsame : second = first
      · -- the other place is below the same name, and the change is further down
        subst hsame
        have hrest : ¬ init ++ [name] <+: rest := by simpa using hother
        rw [seen_cons, entries_directory, lookup_setEntry, Option.bind_some, ih hnext hrest,
          seen_cons, hlookup, Option.bind_some]
      · rw [seen_cons, entries_directory, lookup_setEntry_of_ne hsame, seen_cons]

theorem lookup_filter (entries : List (FileName × Node)) :
    (entries.filter fun entry => entry.1 ≠ name).lookup name = none := by
  rw [List.lookup_eq_none_iff]
  intro entry hentry
  have hne : entry.1 ≠ name := of_decide_eq_true (List.mem_filter.1 hentry).2
  exact bne_iff_ne.2 hne.symm

theorem lookup_filter_of_ne (h : other ≠ name) (entries : List (FileName × Node)) :
    (entries.filter fun entry => entry.1 ≠ name).lookup other = entries.lookup other := by
  induction entries with
  | nil => rfl
  | cons entry rest ih =>
    by_cases hname : entry.1 = name
    · rw [List.filter_cons_of_neg (by simpa using hname), ih, List.lookup_cons, hname,
        beq_false_of_ne h]
    · rw [List.filter_cons_of_pos (by simpa using hname), List.lookup_cons, List.lookup_cons, ih]

theorem erase_cons_of_ne_nil (h : place ≠ []) (n : Node) (name : FileName) :
    n.erase (name :: place) =
      match n.entries.lookup name with
      | none => n
      | some next => directory (setEntry name (next.erase place) n.entries) := by
  cases place with
  | nil => exact absurd rfl h
  | cons second rest => rfl

/-- What is taken away is not found any more, and elsewhere nothing is changed. -/
theorem seen_erase_eq_ite (hfile : n.seen (init ++ [name]) = some (.file bytes))
    (q : List FileName) :
    (n.erase (init ++ [name])).seen q = if init ++ [name] <+: q then none else n.seen q := by
  -- down the names to the directory of the file
  induction init generalizing n q with
  | nil =>
    rw [List.nil_append, seen_cons, Option.bind_eq_some_iff] at hfile
    obtain ⟨found, hlookup, -⟩ := hfile
    obtain ⟨entries, rfl⟩ := exists_of_lookup_eq_some hlookup
    rw [List.nil_append, erase, entries_directory]
    cases q with
    | nil => rfl
    | cons second rest =>
      rw [seen_cons, seen_cons, entries_directory, entries_directory]
      by_cases hsame : second = name
      · rw [hsame, lookup_filter, if_pos (by simp)]
        rfl
      · have hprefix : ¬ [name] <+: second :: rest := by simpa [eq_comm] using hsame
        rw [if_neg hprefix, lookup_filter_of_ne hsame]
  | cons first init ih =>
    rw [List.cons_append, seen_cons, Option.bind_eq_some_iff] at hfile
    obtain ⟨next, hlookup, hnext⟩ := hfile
    obtain ⟨entries, rfl⟩ := exists_of_lookup_eq_some hlookup
    rw [List.cons_append, erase_cons_of_ne_nil (by simp), hlookup]
    cases q with
    | nil => rfl
    | cons second rest =>
      rw [entries_directory] at hlookup
      simp only [seen_cons, List.cons_prefix_cons, entries_directory]
      by_cases hsame : second = first
      · -- the other place is below the same name, and the change is further down
        subst hsame
        rw [lookup_setEntry, hlookup, Option.bind_some, Option.bind_some, ih hnext]
        simp
      · -- the other place is below another name, where nothing is changed
        have hne : first ≠ second := fun h => hsame h.symm
        rw [lookup_setEntry_of_ne hsame, if_neg (by simp [hne])]

theorem update_seen {value : Option Entry} (hplace : n.seen place ≠ some .directory)
    (q : List FileName) :
    Function.update n.seen place value q =
      if place <+: q then (if q = place then value else none) else n.seen q := by
  by_cases hq : q = place
  · subst hq
    simp
  · rw [Function.update_of_ne hq, if_neg hq]
    split
    · next hprefix =>
      obtain ⟨rest, rfl⟩ := hprefix
      exact seen_append_of_ne_directory hplace (by simpa using hq)
    · rfl

/-- A file that is put where there is no directory is all that is changed. -/
theorem seen_put (bytes : List UInt8)
    (hinit : ∀ init name, place = init ++ [name] → n.seen init = some .directory)
    (hplace : n.seen place ≠ some .directory) :
    (n.put (file bytes) place).seen = Function.update n.seen place (some (.file bytes)) := by
  funext q
  rw [update_seen hplace]
  by_cases hprefix : place <+: q
  · obtain ⟨rest, rfl⟩ := hprefix
    rw [seen_put_append, if_pos (List.prefix_append _ _)]
    cases rest with
    | nil => simp [entry]
    | cons first rest => simp [seen_cons, entries]
  · rw [if_neg hprefix]
    rcases List.eq_nil_or_concat place with rfl | ⟨init, name, rfl⟩
    · exact absurd q.nil_prefix hprefix
    · rw [List.concat_eq_append] at hinit hprefix ⊢
      exact seen_put_of_not_prefix _ (hinit init name rfl) hprefix

/-- A file that is taken away is all that is changed. -/
theorem seen_erase (hfile : n.seen (init ++ [name]) = some (.file bytes)) :
    (n.erase (init ++ [name])).seen = Function.update n.seen (init ++ [name]) none := by
  funext q
  rw [seen_erase_eq_ite hfile, update_seen (by simp [hfile])]
  simp

end Node

end Offside
