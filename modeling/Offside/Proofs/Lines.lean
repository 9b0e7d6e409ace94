import Mathlib.Data.List.SplitBy
import Offside.Proofs.Request

/-!
# A text by its lines

The analysis of a whole text can be said without a queue, a state or an order of reading.  One
pass of the escape rules labels every character as escaped or not.  The labelled text falls into
lines, each up to and with its newline, whether that is escaped or not.  A line starts with its
**run**, the whitespace before the first character that is escaped or no whitespace; what follows
is its **body**.  A line has content if its body starts with an unescaped character that is no
newline.  The runs of the lines with content, in order, are all that the levels depend on.

## Main definitions

* `Tracker.labelled` — the characters of a text, each with whether it is escaped.
* `Layout.lines`, `Layout.linesOf` — the lines of a labelled text, and of a text under escape rules.
* `Layout.unlines` — the text of some lines.
* `Layout.run`, `Layout.body`, `Layout.isContent` — the parts of a line.
* `Layout.contentRuns` — the runs of the lines with content.
* `Layout.render` — the lines with their runs replaced by marks, and the stack after them.
* `Layout.renderAll` — their text, with a mark at the end for each open level.

## Main results

* `Layout.lined_lines` — what lines look like.
* `Layout.exists_of_render_eq_none` — rendering fails at a first malformed line.
* `Layout.foldlM_contentRuns` — the stack after the lines is the fold of their runs.
-/

namespace Offside

/-! ### Labels -/

namespace Tracker

/-- The rules after a text. -/
def after (t : Tracker) (text : List CodePoint) : Tracker := (t.label text).2

/-- The characters of a text, each with whether it is escaped. -/
def labelled (t : Tracker) (text : List CodePoint) : List (CodePoint × Bool) :=
  text.zip (t.label text).1

variable {t : Tracker} {c : CodePoint} {text rest : List CodePoint}

@[simp] theorem after_nil (t : Tracker) : t.after [] = t := rfl

@[simp] theorem after_cons (t : Tracker) (c : CodePoint) (rest : List CodePoint) :
    t.after (c :: rest) = (t.observe c).after rest := rfl

@[simp] theorem labelled_nil (t : Tracker) : t.labelled [] = [] := rfl

@[simp] theorem labelled_cons (t : Tracker) (c : CodePoint) (rest : List CodePoint) :
    t.labelled (c :: rest) = (c, t.escapes c) :: (t.observe c).labelled rest := rfl

@[simp] theorem map_fst_labelled (t : Tracker) (text : List CodePoint) :
    (t.labelled text).map Prod.fst = text := by
  induction text generalizing t with
  | nil => rfl
  | cons c rest ih => rw [labelled_cons, List.map_cons, ih]

theorem labelled_append (t : Tracker) (text rest : List CodePoint) :
    t.labelled (text ++ rest) = t.labelled text ++ (t.after text).labelled rest := by
  induction text generalizing t with
  | nil => rfl
  | cons c text ih => rw [List.cons_append, labelled_cons, labelled_cons, ih, after_cons,
      List.cons_append]

theorem after_append (t : Tracker) (text rest : List CodePoint) :
    t.after (text ++ rest) = (t.after text).after rest := by
  induction text generalizing t with
  | nil => rfl
  | cons c text ih => rw [List.cons_append, after_cons, after_cons, ih]

/-- The parts of a labelled text are labelled texts. -/
theorem exists_of_labelled_eq_append {first second : List (CodePoint × Bool)}
    (h : t.labelled text = first ++ second) :
    ∃ u v, text = u ++ v ∧ t.labelled u = first ∧ (t.after u).labelled v = second := by
  induction first generalizing t text with
  | nil => exact ⟨[], text, rfl, rfl, h⟩
  | cons x first ih =>
    cases text with
    | nil => simp at h
    | cons c text =>
      rw [labelled_cons, List.cons_append, List.cons.injEq] at h
      obtain ⟨u, v, rfl, hu, hv⟩ := ih h.2
      exact ⟨c :: u, v, rfl, by rw [labelled_cons, h.1, hu], by rw [after_cons, hv]⟩

end Tracker

namespace Layout

/-! ### Lines -/

/-- A labelled text cut after each newline. -/
def lines (l : Layout) (text : List (CodePoint × Bool)) : List (List (CodePoint × Bool)) :=
  text.splitBy fun x _ => x.1 ≠ l.newline

/-- The lines of a text under some escape rules. -/
def linesOf (l : Layout) (rules : List Rule) (text : List CodePoint) :
    List (List (CodePoint × Bool)) :=
  l.lines (({ rules := rules } : Tracker).labelled text)

/-- The text of some lines. -/
def unlines (lines : List (List (CodePoint × Bool))) : List CodePoint := lines.flatten.map Prod.fst

/-- Every line ends with the only newline in it, but for the last, which may lack it. -/
inductive Lined (l : Layout) : List (List (CodePoint × Bool)) → Prop where
  /-- There is no line. -/
  | nil : Lined l []
  /-- The last line lacks its newline. -/
  | last (line : List (CodePoint × Bool)) (hne : line ≠ []) (hline : ∀ x ∈ line, x.1 ≠ l.newline) :
      Lined l [line]
  /-- A line ends, and others may follow. -/
  | cons (stem : List (CodePoint × Bool)) (x : CodePoint × Bool)
      (rest : List (List (CodePoint × Bool)))
      (hstem : ∀ y ∈ stem, y.1 ≠ l.newline) (hx : x.1 = l.newline) (hrest : Lined l rest) :
      Lined l ((stem ++ [x]) :: rest)

theorem flatten_lines (l : Layout) (text : List (CodePoint × Bool)) :
    (l.lines text).flatten = text :=
  List.flatten_splitBy _ text

theorem forall_mem_dropLast_of_isChain {l : Layout} {line : List (CodePoint × Bool)}
    (h : line.IsChain fun x _ => decide (x.1 ≠ l.newline)) :
    ∀ x ∈ line.dropLast, x.1 ≠ l.newline := by
  induction line with
  | nil => simp
  | cons x line ih =>
    cases line with
    | nil => simp
    | cons y line =>
      rw [List.isChain_cons_cons] at h
      intro z hz
      rw [List.dropLast_cons_of_ne_nil (List.cons_ne_nil y line), List.mem_cons] at hz
      rcases hz with rfl | hz
      · exact of_decide_eq_true h.1
      · exact ih h.2 z hz

theorem lined_lines (l : Layout) (text : List (CodePoint × Bool)) : l.Lined (l.lines text) := by
  -- no line is empty, and newlines are where two lines meet and nowhere else
  obtain ⟨-, hne, hchain, hends⟩ := List.splitBy_eq_iff.1 (rfl : l.lines text = l.lines text)
  generalize l.lines text = ls at hne hchain hends
  induction ls with
  | nil => exact .nil
  | cons line rest ih =>
    have hline : line ≠ [] := by
      rintro rfl
      exact hne List.mem_cons_self
    have hbody := forall_mem_dropLast_of_isChain (hchain line List.mem_cons_self)
    have hrest : l.Lined rest := by
      refine ih (fun h => hne (List.mem_cons_of_mem _ h)) (fun m hm => ?_) hends.tail
      exact hchain m (List.mem_cons_of_mem _ hm)
    by_cases hlast : (line.getLast hline).1 = l.newline
    · rw [← List.dropLast_append_getLast hline]
      exact .cons _ _ _ hbody hlast hrest
    · -- a line that lacks its newline is followed by no other
      cases rest with
      | nil =>
        refine .last line hline fun x hx => ?_
        rw [← List.dropLast_append_getLast hline, List.mem_append, List.mem_singleton] at hx
        rcases hx with hx | rfl
        · exact hbody x hx
        · exact hlast
      | cons next rest =>
        rw [List.isChain_cons_cons] at hends
        obtain ⟨_, _, hnl⟩ := hends.1
        exact absurd (by simpa using hnl) hlast

/-- A line that is followed by another ends with its newline. -/
theorem Lined.of_append {l : Layout} {before after : List (List (CodePoint × Bool))}
    {line : List (CodePoint × Bool)} (h : l.Lined (before ++ line :: after)) :
    l.Lined before ∧ ∀ x ∈ before, (x.map Prod.fst).getLast? = some l.newline := by
  induction before with
  | nil => exact ⟨.nil, by simp⟩
  | cons first before ih =>
    rw [List.cons_append] at h
    generalize hrest : before ++ line :: after = rest at h
    cases h with
    | last => simp at hrest
    | cons stem x _ hstem hx hlined =>
      subst hrest
      obtain ⟨hbefore, hends⟩ := ih hlined
      refine ⟨.cons stem x before hstem hx hbefore, ?_⟩
      intro y hy
      rcases List.mem_cons.1 hy with rfl | hy
      · simp [hx]
      · exact hends y hy

/-- The first lines of a text are the lines of their text. -/
theorem linesOf_unlines {l : Layout} {rules : List Rule} {text : List CodePoint}
    {before after : List (List (CodePoint × Bool))} (h : l.linesOf rules text = before ++ after) :
    l.linesOf rules (unlines before) = before := by
  obtain ⟨hflat, hne, hchain, hends⟩ := List.splitBy_eq_iff.1 h
  rw [List.flatten_append] at hflat
  obtain ⟨u, v, rfl, hu, -⟩ := Tracker.exists_of_labelled_eq_append hflat
  have htext : unlines before = u := by rw [unlines, ← hu, Tracker.map_fst_labelled]
  rw [linesOf, lines, htext, hu, List.splitBy_eq_iff]
  refine ⟨rfl, fun hmem => hne (List.mem_append_left _ hmem), fun line hline => ?_,
    hends.left_of_append⟩
  exact hchain line (List.mem_append_left _ hline)

/-! ### The parts of a line -/

/-- A labelled character may belong to the whitespace that starts a line. -/
def leads (l : Layout) (x : CodePoint × Bool) : Bool := !x.2 && x.1 ∈ l.whitespace

/-- The whitespace that a line starts with. -/
def run (l : Layout) (line : List (CodePoint × Bool)) : List CodePoint :=
  (line.takeWhile l.leads).map Prod.fst

/-- What follows the whitespace that a line starts with. -/
def body (l : Layout) (line : List (CodePoint × Bool)) : List CodePoint :=
  (line.dropWhile l.leads).map Prod.fst

/-- A line has content if its run is followed by an unescaped character that is no newline. -/
def isContent (l : Layout) (line : List (CodePoint × Bool)) : Bool :=
  match line.dropWhile l.leads with
  | [] => false
  | x :: _ => !x.2 && x.1 ≠ l.newline

/-- The runs of the lines with content. -/
def contentRuns (l : Layout) (lines : List (List (CodePoint × Bool))) : List (List CodePoint) :=
  (lines.filter l.isContent).map l.run

theorem contentRuns_append (l : Layout) (before after : List (List (CodePoint × Bool))) :
    l.contentRuns (before ++ after) = l.contentRuns before ++ l.contentRuns after := by
  rw [contentRuns, List.filter_append, List.map_append, contentRuns, contentRuns]

theorem contentRuns_cons_of_isContent {l : Layout} {line : List (CodePoint × Bool)}
    (h : l.isContent line = true) (rest : List (List (CodePoint × Bool))) :
    l.contentRuns (line :: rest) = l.run line :: l.contentRuns rest := by
  rw [contentRuns, List.filter_cons_of_pos h, List.map_cons, contentRuns]

theorem contentRuns_cons_of_not_isContent {l : Layout} {line : List (CodePoint × Bool)}
    (h : ¬ l.isContent line = true) (rest : List (List (CodePoint × Bool))) :
    l.contentRuns (line :: rest) = l.contentRuns rest := by
  rw [contentRuns, List.filter_cons_of_neg h, contentRuns]

/-- A run is whitespace. -/
theorem mem_whitespace_of_mem_run {l : Layout} {line : List (CodePoint × Bool)} {c : CodePoint}
    (h : c ∈ l.run line) : c ∈ l.whitespace := by
  obtain ⟨x, hx, rfl⟩ := List.mem_map.1 h
  have hleads : l.leads x = true := List.all_eq_true.1 List.all_takeWhile x hx
  rw [leads, Bool.and_eq_true, decide_eq_true_eq] at hleads
  exact hleads.2

/-- A line with content goes on after its run with an unescaped character that is no newline and
no whitespace. -/
theorem exists_of_isContent {l : Layout} {line : List (CodePoint × Bool)}
    (h : l.isContent line = true) :
    ∃ c rest, line = line.takeWhile l.leads ++ (c, false) :: rest ∧
      l.body line = c :: rest.map Prod.fst ∧ c ∉ l.whitespace ∧ c ≠ l.newline := by
  rw [isContent] at h
  split at h
  · simp at h
  · next x rest hdrop =>
    obtain ⟨c, escaped⟩ := x
    obtain ⟨rfl, hnl⟩ : escaped = false ∧ c ≠ l.newline := by simpa using h
    -- the run ends where it does because this character is no whitespace
    have hhead : l.leads (c, false) = false := by
      have hne : line.dropWhile l.leads ≠ [] := by simp [hdrop]
      simpa [hdrop] using List.head_dropWhile_not l.leads hne
    refine ⟨c, rest, ?_, ?_, ?_, hnl⟩
    · rw [← hdrop, List.takeWhile_append_dropWhile]
    · rw [body, hdrop, List.map_cons]
    · simpa [leads] using hhead

/-! ### Rendering -/

/-- What a line with content becomes: its marks in the place of its run, which may be kept. -/
def renderLine (l : Layout) (before after : Nat) (line : List (CodePoint × Bool)) : List Token :=
  l.marks before after ++ (if l.keepWhitespace then (l.run line).map Token.content else []) ++
    (l.body line).map Token.content

/-- The lines with their runs replaced by marks, and the stack after them, unless one of them is
malformed.  Lines without content stay as they are. -/
def render (l : Layout) (stack : Stack) :
    List (List (CodePoint × Bool)) → Option (List Token × Stack)
  | [] => some ([], stack)
  | line :: rest =>
    if l.isContent line then
      (stack.advance? (l.run line)).bind fun stack' =>
        (l.render stack' rest).map fun r =>
          (l.renderLine stack.depth stack'.depth line ++ r.1, r.2)
    else (l.render stack rest).map fun r => ((line.map fun x => Token.content x.1) ++ r.1, r.2)

/-- The text of some lines, with a mark at the end for each level that is open then. -/
def renderAll (l : Layout) (lines : List (List (CodePoint × Bool))) : Option (List CodePoint) :=
  (l.render {} lines).map fun r =>
    Token.text (r.1 ++ List.replicate r.2.depth ⟨.dedent, l.dedentMark⟩)

variable {l : Layout} {stack stack' : Stack} {line : List (CodePoint × Bool)}
  {lines rest : List (List (CodePoint × Bool))} {out : List Token}

theorem render_cons_of_isContent (h : l.isContent line = true) (stack : Stack)
    (rest : List (List (CodePoint × Bool))) :
    l.render stack (line :: rest) =
      (stack.advance? (l.run line)).bind fun stack' =>
        (l.render stack' rest).map fun r =>
          (l.renderLine stack.depth stack'.depth line ++ r.1, r.2) := by
  rw [render, if_pos h]

theorem render_cons_of_not_isContent (h : ¬ l.isContent line = true) (stack : Stack)
    (rest : List (List (CodePoint × Bool))) :
    l.render stack (line :: rest) =
      (l.render stack rest).map fun r => ((line.map fun x => Token.content x.1) ++ r.1, r.2) := by
  rw [render, if_neg h]

/-- Lines are rendered one after the other. -/
theorem render_cons (l : Layout) (stack : Stack) (line : List (CodePoint × Bool))
    (rest : List (List (CodePoint × Bool))) :
    l.render stack (line :: rest) = (l.render stack [line]).bind fun first =>
      (l.render first.2 rest).map fun r => (first.1 ++ r.1, r.2) := by
  by_cases hcontent : l.isContent line = true
  · rw [render_cons_of_isContent hcontent, render_cons_of_isContent hcontent]
    cases stack.advance? (l.run line) with
    | none => rfl
    | some stack' => simp [render]
  · rw [render_cons_of_not_isContent hcontent, render_cons_of_not_isContent hcontent]
    simp [render]

/-- The first of some lines that are rendered. -/
theorem render_cons_cases {r : List Token × Stack} (h : l.render stack (line :: rest) = some r) :
    (l.isContent line = true ∧ ∃ stack' out, stack.advance? (l.run line) = some stack' ∧
        l.render stack' rest = some (out, r.2) ∧
        r.1 = l.renderLine stack.depth stack'.depth line ++ out) ∨
      (¬ l.isContent line = true ∧ ∃ out, l.render stack rest = some (out, r.2) ∧
        r.1 = (line.map fun x => Token.content x.1) ++ out) := by
  by_cases hcontent : l.isContent line = true
  · rw [render_cons_of_isContent hcontent, Option.bind_eq_some_iff] at h
    obtain ⟨stack', hstack, h⟩ := h
    obtain ⟨⟨out, last⟩, hrest, rfl⟩ := Option.map_eq_some_iff.1 h
    exact Or.inl ⟨hcontent, stack', out, hstack, hrest, rfl⟩
  · rw [render_cons_of_not_isContent hcontent] at h
    obtain ⟨⟨out, last⟩, hrest, rfl⟩ := Option.map_eq_some_iff.1 h
    exact Or.inr ⟨hcontent, out, hrest, rfl⟩

/-- Rendering fails at a first line, which is malformed. -/
theorem exists_of_render_eq_none (h : l.render stack lines = none) :
    ∃ before line after out stack', lines = before ++ line :: after ∧
      l.render stack before = some (out, stack') ∧ l.isContent line = true ∧
      stack'.advance? (l.run line) = none := by
  induction lines generalizing stack with
  | nil => simp [render] at h
  | cons line rest ih =>
    by_cases hcontent : l.isContent line = true
    · rw [render_cons_of_isContent hcontent] at h
      cases hstack : stack.advance? (l.run line) with
      | none => exact ⟨[], line, rest, [], stack, rfl, rfl, hcontent, hstack⟩
      | some stack₁ =>
        rw [hstack, Option.bind_some, Option.map_eq_none_iff] at h
        obtain ⟨before, bad, after, out, stack₂, rfl, hbefore, hbad, hnone⟩ := ih h
        refine ⟨line :: before, bad, after, l.renderLine stack.depth stack₁.depth line ++ out,
          stack₂, rfl, ?_, hbad, hnone⟩
        rw [render_cons_of_isContent hcontent, hstack, Option.bind_some, hbefore, Option.map_some]
    · rw [render_cons_of_not_isContent hcontent, Option.map_eq_none_iff] at h
      obtain ⟨before, bad, after, out, stack₂, rfl, hbefore, hbad, hnone⟩ := ih h
      refine ⟨line :: before, bad, after, (line.map fun x => Token.content x.1) ++ out, stack₂, rfl,
        ?_, hbad, hnone⟩
      rw [render_cons_of_not_isContent hcontent, hbefore, Option.map_some]

/-- **The levels depend on the runs of the lines with content alone.** -/
theorem foldlM_contentRuns (l : Layout) (stack : Stack) (lines : List (List (CodePoint × Bool))) :
    (l.contentRuns lines).foldlM Stack.advance? stack = (l.render stack lines).map Prod.snd := by
  induction lines generalizing stack with
  | nil => rfl
  | cons line rest ih =>
    by_cases hcontent : l.isContent line = true
    · rw [contentRuns_cons_of_isContent hcontent, List.foldlM_cons,
        render_cons_of_isContent hcontent]
      cases stack.advance? (l.run line) with
      | none => rfl
      | some stack' =>
        rw [Option.bind_some, Option.map_map]
        exact ih stack'
    · rw [contentRuns_cons_of_not_isContent hcontent, render_cons_of_not_isContent hcontent, ih,
        Option.map_map]
      rfl

end Layout

end Offside
