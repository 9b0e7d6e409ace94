import Offside.Proofs.Batch
import Offside.Proofs.Options

/-!
# Outlines

An **outline** is a text by its structure: lines, each with the block of lines below it.  Printed,
every block has an indentation of its own, which may be any whitespace, and a line stands behind
the indentations of all blocks that it lies in.  Rendered, blocks stand between marks.

Reading the printed outline gives the rendered one, whatever whitespace the blocks have: at each
line the stack has the levels of the blocks around the line, and those of blocks that ended
before it, whose marks are still to come.

## Main definitions

* `Outline` — lines with blocks.
* `Outline.print`, `Outline.render` — an outline with indentation, and with marks.
* `Outline.Fits` — what keeps the lines of an outline apart from their indentation.
* `Engine.Renders` — what a part of the text lets out, up to the marks that are still due.

## Main results

* `Outline.renders_print` — what a printed outline lets out at any level.
* `Outline.transform_print` — **transforming a printed outline renders it.**
-/

namespace Offside

/-- Lines, each with the block below it. -/
inductive Outline where
  /-- There is no line. -/
  | nil
  /-- A line, the whitespace that its block adds, the block, and the lines after it. -/
  | line (content indent : List CodePoint) (block rest : Outline)
  deriving DecidableEq, Repr

namespace Outline

/-! ### Two ways to write an outline -/

/-- The text of an outline inside blocks with the indentation `outer`. -/
def print (newline : CodePoint) (outer : List CodePoint) : Outline → List CodePoint
  | nil => []
  | line content indent block rest =>
    outer ++ (content ++ [newline]) ++ block.print newline (outer ++ indent) ++
      rest.print newline outer

/-- The text of an outline with its blocks between marks. -/
def render (l : Layout) : Outline → List CodePoint
  | nil => []
  | line content _ block rest =>
    content ++ [l.newline] ++
      (if block = nil then [] else [l.indentMark] ++ block.render l ++ [l.dedentMark]) ++
      rest.render l

/-- Every line has a content that is not taken for whitespace and ends at its newline, and every
block has an indentation of whitespace. -/
def Fits (l : Layout) : Outline → Prop
  | nil => True
  | line content indent block rest =>
    (∃ c ∈ content.head?, c ∉ l.whitespace) ∧ l.newline ∉ content ∧
      (block ≠ nil → indent ≠ [] ∧ ∀ c ∈ indent, c ∈ l.whitespace) ∧ block.Fits l ∧ rest.Fits l

/-- An outline without the indentations of its blocks. -/
def bare : Outline → Outline
  | nil => nil
  | line content _ block rest => line content [] block.bare rest.bare

instance decidableFits (l : Layout) : (o : Outline) → Decidable (o.Fits l)
  | nil => isTrue trivial
  | line content indent block rest =>
    -- only the characters of the outline are looked at, not all that there are
    have : Decidable (∃ c ∈ content.head?, c ∉ l.whitespace) :=
      decidable_of_iff (content.head?.any (· ∉ l.whitespace) = true)
        (by cases content.head? <;> simp)
    have : Decidable (∀ c ∈ indent, c ∈ l.whitespace) := List.decidableBAll _ indent
    have := decidableFits l block
    have := decidableFits l rest
    inferInstanceAs (Decidable (_ ∧ _ ∧ _ ∧ _ ∧ _))

theorem bare_eq_nil_iff {o : Outline} : o.bare = nil ↔ o = nil := by
  cases o <;> simp [bare]

/-- Rendering does not look at indentations. -/
theorem render_bare (l : Layout) (o : Outline) : o.bare.render l = o.render l := by
  induction o with
  | nil => rfl
  | line content indent block rest hblock hrest =>
    simp only [bare, render, hblock, hrest, bare_eq_nil_iff]

end Outline

/-! ### Texts without escapes -/

namespace Tracker

@[simp] theorem labelled_empty (text : List CodePoint) :
    labelled {} text = text.map fun c => (c, false) := by
  induction text with
  | nil => rfl
  | cons c text ih =>
    rw [labelled_cons, List.map_cons]
    exact congrArg _ ih

@[simp] theorem after_empty (text : List CodePoint) : after {} text = {} := by
  induction text with
  | nil => rfl
  | cons c text ih => exact ih

end Tracker

namespace Layout

variable {l : Layout} {outer text : List CodePoint} {c : CodePoint}

/-- In a line without escapes the whitespace ends at its first other character. -/
theorem takeWhile_leads (houter : ∀ c ∈ outer, c ∈ l.whitespace) (hc : c ∉ l.whitespace) :
    (Tracker.labelled {} (outer ++ c :: text)).takeWhile l.leads =
        outer.map (fun c => (c, false)) ∧
      (Tracker.labelled {} (outer ++ c :: text)).dropWhile l.leads =
        (c :: text).map fun c => (c, false) := by
  have hpos : ∀ x ∈ outer.map fun c => (c, false), l.leads x = true := by
    intro x hx
    obtain ⟨d, hd, rfl⟩ := List.mem_map.1 hx
    simpa [leads] using houter d hd
  have hneg : ¬ l.leads (c, false) = true := by simpa [leads] using hc
  rw [Tracker.labelled_empty, List.map_append, List.takeWhile_append_of_pos hpos,
    List.dropWhile_append_of_pos hpos, List.map_cons, List.takeWhile_cons_of_neg hneg,
    List.dropWhile_cons_of_neg hneg]
  simp

theorem run_labelled_empty (houter : ∀ c ∈ outer, c ∈ l.whitespace) (hc : c ∉ l.whitespace) :
    l.run (Tracker.labelled {} (outer ++ c :: text)) = outer := by
  rw [run, (takeWhile_leads houter hc).1]
  simp [Function.comp_def]

theorem body_labelled_empty (houter : ∀ c ∈ outer, c ∈ l.whitespace) (hc : c ∉ l.whitespace) :
    l.body (Tracker.labelled {} (outer ++ c :: text)) = c :: text := by
  rw [body, (takeWhile_leads houter hc).2]
  simp [Function.comp_def]

theorem isContent_labelled_empty (houter : ∀ c ∈ outer, c ∈ l.whitespace) (hc : c ∉ l.whitespace)
    (hne : c ≠ l.newline) : l.isContent (Tracker.labelled {} (outer ++ c :: text)) = true := by
  rw [isContent, (takeWhile_leads houter hc).2]
  simpa using hne

end Layout

namespace Engine

variable {l : Layout} {e e' : Engine} {file : Option String} {outer content : List CodePoint}
  {stack : Stack}

/-- An analysis without escapes stands at the start of a line. -/
structure Ready (l : Layout) (e : Engine) : Prop extends e.AtLine where
  layout_eq : e.layout = l
  tracker_eq : e.tracker = {}

theorem ready_fresh (l : Layout) : (fresh l []).Ready l where
  __ := atLine_fresh l []
  layout_eq := rfl
  tracker_eq := rfl

theorem Ready.due_eq_nil (he : e.Ready l) : e.due = [] := due_of_queue_nil he.queue_eq_nil

/-- A line without escapes is let out with the marks of its level. -/
theorem Ready.feedAll_line (he : e.Ready l) (hkeep : l.keepWhitespace = false)
    (hn : l.newline ∉ l.whitespace) (file : Option String)
    (houter : ∀ c ∈ outer, c ∈ l.whitespace) (hc : ∃ c ∈ content.head?, c ∉ l.whitespace)
    (hcontent : l.newline ∉ content) (hstack : e.stack.advance? outer = some stack) :
    ∃ e' notices, e.feedAll file (outer ++ (content ++ [l.newline])) =
        ⟨l.marks e.depth stack.depth ++ (content ++ [l.newline]).map Token.content, .ok e',
          notices⟩ ∧
      e'.Ready l ∧ e'.stack = stack := by
  obtain ⟨c, hhead, hc⟩ := hc
  obtain ⟨tail, rfl⟩ : ∃ tail, content = c :: tail := by
    cases content with
    | nil => simp at hhead
    | cons d tail => exact ⟨tail, by simpa using hhead⟩
  have hlayout := he.layout_eq
  subst hlayout
  have hnewline : e.layout.newline ∉ outer ++ c :: tail := by
    rw [List.mem_append]
    rintro (h | h)
    · exact hn (houter _ h)
    · exact hcontent h
  have hline : ∀ d ∈ (outer ++ (c :: tail ++ [e.layout.newline])).dropLast,
      d ≠ e.layout.newline := by
    rw [← List.append_assoc, List.dropLast_concat]
    rintro d hd rfl
    exact hnewline hd
  -- without escapes the line is split where its whitespace ends
  have hdecides : e.layout.isContent
      (e.tracker.labelled (outer ++ (c :: tail ++ [e.layout.newline]))) = true := by
    rw [he.tracker_eq]
    refine Layout.isContent_labelled_empty houter hc ?_
    rintro rfl
    exact hcontent List.mem_cons_self
  have hrun : e.layout.run (e.tracker.labelled (outer ++ (c :: tail ++ [e.layout.newline]))) =
      outer := by
    rw [he.tracker_eq]
    exact Layout.run_labelled_empty houter hc
  have hbody : e.layout.body (e.tracker.labelled (outer ++ (c :: tail ++ [e.layout.newline]))) =
      c :: tail ++ [e.layout.newline] := by
    rw [he.tracker_eq]
    exact Layout.body_labelled_empty houter hc
  rw [← hrun] at hstack
  obtain ⟨e', notices, hfeed, -, hstack', hlast⟩ :=
    he.toAtLine.feedAll_content file hline hdecides hstack
  refine ⟨e', notices, ?_, ⟨hlast ?_, layout_feedAll hfeed, ?_⟩, hstack'⟩
  · rw [hfeed, Layout.renderLine, hkeep, hbody]
    simp
  · rw [← List.append_assoc, List.getLast?_concat]
  · rw [tracker_feedAll hfeed, he.tracker_eq, Tracker.after_empty]

/-! ### What a text lets out -/

/-- A text whose lines are at the level `stack` or inside it lets out what is rendered, after the
marks that lead to this level and without those that lead back to it, which are still due. -/
structure Renders (l : Layout) (file : Option String) (stack : Stack) (e : Engine)
    (text rendered : List CodePoint) (e' : Engine) : Prop where
  ready : e'.Ready l
  inside : stack.levels <+: e'.stack.levels
  fed : ∃ tokens notices, e.feedAll file text = ⟨tokens, .ok e', notices⟩ ∧
    Token.text tokens ++ List.replicate (e'.depth - stack.depth) l.dedentMark =
      Token.text (l.marks e.depth stack.depth) ++ rendered

theorem text_marks_of_le {before after : Nat} (h : after ≤ before) :
    Token.text (l.marks before after) = List.replicate (before - after) l.dedentMark := by
  simp [Layout.marks, Nat.not_lt.2 h, Token.text]

theorem depth_le_depth_of_inside (h : stack.levels <+: e.stack.levels) : stack.depth ≤ e.depth :=
  h.length_le

theorem renders_nil (he : e.Ready l) (h : stack.levels <+: e.stack.levels) :
    Renders l file stack e [] [] e where
  ready := he
  inside := h
  fed := by
    refine ⟨[], [], rfl, ?_⟩
    rw [text_marks_of_le (depth_le_depth_of_inside h), List.append_nil]
    rfl

/-- A line is let out after the marks of its level. -/
theorem Ready.renders_line (he : e.Ready l) (hkeep : l.keepWhitespace = false)
    (hn : l.newline ∉ l.whitespace) (file : Option String)
    (houter : ∀ c ∈ outer, c ∈ l.whitespace) (hc : ∃ c ∈ content.head?, c ∉ l.whitespace)
    (hcontent : l.newline ∉ content) (hstack : e.stack.advance? outer = some stack) :
    ∃ e', Renders l file stack e (outer ++ (content ++ [l.newline])) (content ++ [l.newline]) e' ∧
      e'.stack = stack := by
  obtain ⟨e', notices, hfeed, hready, rfl⟩ :=
    he.feedAll_line hkeep hn file houter hc hcontent hstack
  refine ⟨e', ⟨hready, List.prefix_refl _, _, notices, hfeed, ?_⟩, rfl⟩
  simp [Token.text, Engine.depth, Function.comp_def, Token.content]

/-- What is due after a text is let out before the next. -/
theorem Renders.append {e₁ e₂ : Engine} {text rest rendered renderedRest : List CodePoint}
    (htext : Renders l file stack e text rendered e₁)
    (hrest : Renders l file stack e₁ rest renderedRest e₂) :
    Renders l file stack e (text ++ rest) (rendered ++ renderedRest) e₂ where
  ready := hrest.ready
  inside := hrest.inside
  fed := by
    obtain ⟨tokens, notices, hfeed, hout⟩ := htext.fed
    obtain ⟨tokens', notices', hfeed', hout'⟩ := hrest.fed
    refine ⟨tokens ++ tokens', notices ++ notices', ?_, ?_⟩
    · rw [feedAll_append hfeed, hfeed']
    · rw [text_marks_of_le (depth_le_depth_of_inside htext.inside)] at hout'
      calc Token.text (tokens ++ tokens') ++ List.replicate (e₂.depth - stack.depth) l.dedentMark
          = Token.text tokens ++ (Token.text tokens' ++
              List.replicate (e₂.depth - stack.depth) l.dedentMark) := by simp [Token.text]
        _ = (Token.text tokens ++ List.replicate (e₁.depth - stack.depth) l.dedentMark) ++
              renderedRest := by rw [hout', List.append_assoc]
        _ = _ := by rw [hout, List.append_assoc]

/-- A block is let out between the mark that opens it and one that is still due. -/
theorem Renders.close {text rendered ext : List CodePoint} {hext : ext ≠ []}
    (hstack : e.stack = stack) (h : Renders l file (stack.push ⟨ext, hext⟩) e text rendered e') :
    Renders l file stack e text ([l.indentMark] ++ rendered ++ [l.dedentMark]) e' where
  ready := h.ready
  inside := (List.prefix_append _ _).trans h.inside
  fed := by
    obtain ⟨tokens, notices, hfeed, hout⟩ := h.fed
    have hdepth : e.depth = stack.depth := congrArg Stack.depth hstack
    have hle := depth_le_depth_of_inside h.inside
    have hdue : e'.depth - stack.depth = e'.depth - (stack.push ⟨ext, hext⟩).depth + 1 := by
      rw [Stack.depth_push] at hle ⊢
      omega
    refine ⟨tokens, notices, hfeed, ?_⟩
    rw [hdue, List.replicate_succ', ← List.append_assoc, hout, hdepth]
    simp [Layout.marks, Token.text]

end Engine

namespace Outline

open Engine

variable {l : Layout} {file : Option String} {e : Engine} {stack : Stack}

/-- **A printed outline lets out the rendered one**, at any level that its first line can have. -/
theorem renders_print (hkeep : l.keepWhitespace = false) (hn : l.newline ∉ l.whitespace)
    (file : Option String) {o : Outline} (ho : o ≠ nil) (hfits : o.Fits l) {outer : List CodePoint}
    (houter : ∀ c ∈ outer, c ∈ l.whitespace) (he : e.Ready l)
    (hstack : e.stack.advance? outer = some stack) :
    ∃ e', Renders l file stack e (o.print l.newline outer) (o.render l) e' := by
  induction o generalizing e outer stack with
  | nil => exact absurd rfl ho
  | line content indent block rest hblock hrest =>
    obtain ⟨hhead, hcontent, hindent, hfitsBlock, hfitsRest⟩ := hfits
    have hspelled : stack.indentation = outer := Stack.indentation_of_advance? hstack
    obtain ⟨e₁, h₁, hstack₁⟩ :=
      he.renders_line hkeep hn file houter hhead hcontent hstack
    -- the block opens a level of its own
    have hopen : ∃ e₂, Renders l file stack e₁ (block.print l.newline (outer ++ indent))
        (if block = nil then [] else [l.indentMark] ++ block.render l ++ [l.dedentMark]) e₂ := by
      by_cases hnil : block = nil
      · subst hnil
        exact ⟨e₁, renders_nil h₁.ready h₁.inside⟩
      · obtain ⟨hne, hspace⟩ := hindent hnil
        have hinner : ∀ c ∈ outer ++ indent, c ∈ l.whitespace := by
          intro c hc
          exact (List.mem_append.1 hc).elim (houter c) (hspace c)
        have hpush : e₁.stack.advance? (outer ++ indent) = some (stack.push ⟨indent, hne⟩) := by
          rw [hstack₁, ← hspelled]
          exact stack.advance?_append hne
        obtain ⟨e₂, h₂⟩ := hblock hnil hfitsBlock hinner h₁.ready hpush
        rw [if_neg hnil]
        exact ⟨e₂, h₂.close hstack₁⟩
    obtain ⟨e₂, h₂⟩ := hopen
    -- the lines after the block are at the level of the line
    have hnext : ∃ e₃, Renders l file stack e₂ (rest.print l.newline outer) (rest.render l) e₃ := by
      by_cases hnil : rest = nil
      · subst hnil
        exact ⟨e₂, renders_nil h₂.ready h₂.inside⟩
      · apply hrest hnil hfitsRest houter h₂.ready
        rw [← hspelled]
        exact Stack.advance?_of_prefix h₂.inside
    obtain ⟨e₃, h₃⟩ := hnext
    exact ⟨e₃, (h₁.append h₂).append h₃⟩

/-- A stream over a printed outline reads the rendered one. -/
theorem read_print (hkeep : l.keepWhitespace = false) (hn : l.newline ∉ l.whitespace)
    (name : Option String) {o : Outline} (hfits : o.Fits l) :
    ((Stream.ofText name (fresh l []) (o.print l.newline [])).read (-1)).outcome =
      .ok (o.render l) := by
  have hstart : ∃ e', Renders l name {} (fresh l []) (o.print l.newline []) (o.render l) e' := by
    by_cases hnil : o = nil
    · subst hnil
      exact ⟨fresh l [], renders_nil (ready_fresh l) (List.prefix_refl _)⟩
    · exact renders_print hkeep hn name hnil hfits (by simp) (ready_fresh l)
        (Stack.advance?_of_prefix (List.prefix_refl _))
  obtain ⟨e', h⟩ := hstart
  obtain ⟨tokens, notices, hfeed, hout⟩ := h.fed
  -- what is still due after the last line is let out at the end of the input
  obtain ⟨b, hdrain⟩ := Stream.drain_of_feedAll_ok (leading_fresh l []) rfl hfeed
  have hmark : e'.dedentToken.char = l.dedentMark := congrArg Layout.dedentMark h.ready.layout_eq
  have htext : Token.text tokens ++ List.replicate e'.depth l.dedentMark = o.render l := by
    simpa [Engine.depth, fresh, Token.text] using hout
  rw [Stream.read_eq_drain, hdrain, h.ready.due_eq_nil]
  simp only [Reply.outcome_map, Except.map]
  rw [← htext, ← hmark]
  simp [Token.text]

/-- **Transforming a printed outline renders it.**  So it does not matter which whitespace its
blocks have. -/
theorem transform_print (hkeep : l.keepWhitespace = false) (hn : l.newline ∉ l.whitespace)
    {options : Options} (hoptions : options.Asks l []) {o : Outline} (hfits : o.Fits l) :
    (transform { rest := o.print l.newline [] : TextSource } options).outcome =
        .ok (o.render l) ∧
      ∀ other : Outline, other.Fits l → other.bare = o.bare →
        (transform { rest := other.print l.newline [] : TextSource } options).outcome =
          .ok (o.render l) := by
  have hprint (p : Outline) (hp : p.Fits l) :
      (transform { rest := p.print l.newline [] : TextSource } options).outcome =
        .ok (p.render l) := by
    rw [hoptions.transform_text]
    exact congrArg (Except.mapError TransformError.read) (read_print hkeep hn none hp)
  refine ⟨hprint o hfits, ?_⟩
  intro other hother hbare
  rw [hprint other hother, ← render_bare l other, hbare, render_bare]

/-- Lines in blocks whose indentations start with one another. -/
def nested : Outline :=
  line ['a'] [' ']
    (line ['b'] [' '] (line ['c'] [] nil nil) (line ['d'] ['\t'] (line ['e'] [] nil nil) nil))
    (line ['f'] ['\t'] (line ['g'] ['\t', ' '] (line ['h'] [] nil nil) nil) nil)

/-- The lines of `nested` with other whitespace. -/
def renested : Outline :=
  line ['a'] ['\t']
    (line ['b'] ['\t', ' '] (line ['c'] [] nil nil)
      (line ['d'] [' '] (line ['e'] [] nil nil) nil))
    (line ['f'] [' ', ' '] (line ['g'] ['\t'] (line ['h'] [] nil nil) nil) nil)

theorem transform_nested :
    (transform
          { rest := "a\n b\n  c\n d\n \te\nf\n\tg\n\t\t h\n".codePoints : TextSource } {}).outcome =
        .ok "a\n>b\n>c\n<d\n>e\n<<f\n>g\n>h\n<<".codePoints ∧
      (transform { rest := renested.print '\n' [] : TextSource } {}).outcome =
        .ok "a\n>b\n>c\n<d\n>e\n<<f\n>g\n>h\n<<".codePoints := by
  have hoptions : ({} : Options).Asks {} [] :=
    ⟨rfl, rfl, rfl, rfl, rfl, [], [], rfl, rfl, rfl⟩
  have hrender : nested.render {} = "a\n>b\n>c\n<d\n>e\n<<f\n>g\n>h\n<<".codePoints := by
    decide +kernel
  have hprint : nested.print '\n' [] = "a\n b\n  c\n d\n \te\nf\n\tg\n\t\t h\n".codePoints := by
    decide +kernel
  obtain ⟨h, hre⟩ :=
    transform_print (l := {}) (o := nested) rfl (by decide) hoptions (by decide +kernel)
  rw [← hrender, ← hprint]
  exact ⟨h, hre renested (by decide +kernel) (by decide +kernel)⟩

end Outline

end Offside
