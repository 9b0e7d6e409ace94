import Offside.Text.Blank
import Offside.Text.Lines

/-!
# Statements in a file of assignments

A file of assignments is a sequence of statements, as a shell would read them.  A statement is a
name, which may be between single quotes and may have the word `export` before it; an equals sign
and a value, or neither; and perhaps a comment.  It ends with its line, but what is between
quotes may go on over several lines.

What cannot be read is skipped up to the end of the line, and its line is remembered.

## Main definitions

* `Statement` — what a part of the file says.
* `scanStatement` — the statement at the start of a text, and the text after it.
* `statements` — what the whole of it says.

## Main results

* `length_scanStatement_lt` — a statement takes something off a text, so reading all of them ends.
-/

namespace Offside.Assignments

/-! ### Quotes -/

/-- A blank that does not end the line. -/
def isInlineBlank (c : Char) : Bool := Text.isBlank c && c ≠ '\n'

/-- What is before the closing quote, and what follows it.  A backslash belongs to the character
after it, whatever that is, so a quote after it does not close, but a quote after two of them
does. -/
def untilQuote (quote : Char) : List Char → Option (List Char × List Char)
  | [] => none
  | '\\' :: c :: rest => (untilQuote quote rest).map fun (text, after) => ('\\' :: c :: text, after)
  | c :: rest =>
    if c = quote then some ([], rest)
    else (untilQuote quote rest).map fun (text, after) => (c :: text, after)

example : untilQuote '\'' "a\\\\' 'b'".toList = some ("a\\\\".toList, " 'b'".toList) := by
  decide +kernel

example : untilQuote '\'' "a\\' 'b'".toList = some ("a\\' ".toList, "b'".toList) := by
  decide +kernel

example : untilQuote '\'' "a\\' b".toList = none := by
  decide +kernel

/-- The character that is meant by a backslash and a character between single quotes. -/
def singleEscape? : Char → Option Char
  | '\\' => some '\\'
  | '\'' => some '\''
  | _ => none

/-- The character that is meant by a backslash and a character between double quotes. -/
def doubleEscape? : Char → Option Char
  | '\\' => some '\\'
  | '\'' => some '\''
  | '"' => some '"'
  | 'a' => some '\x07'
  | 'b' => some '\x08'
  | 'f' => some '\x0c'
  | 'n' => some '\n'
  | 'r' => some '\r'
  | 't' => some '\t'
  | 'v' => some '\x0b'
  | _ => none

/-- A text with the characters that are meant by its escapes; what is no escape stays. -/
def unescape (escape? : Char → Option Char) : List Char → List Char
  | [] => []
  | '\\' :: c :: rest => match escape? c with
    | some d => d :: unescape escape? rest
    | none => '\\' :: unescape escape? (c :: rest)
  | c :: rest => c :: unescape escape? rest

example : unescape doubleEscape? "a\\tb\\\\n\\x".toList = "a\tb\\n\\x".toList := by
  decide +kernel

/-! ### The parts of a statement -/

/-- What a part of a statement is, and the text after it; or the text at which it fails. -/
abbrev Scanned (α : Type) := Except (List Char) (α × List Char)

/-- A part with another view of what it is. -/
def Scanned.map {α β : Type} (f : α → β) : Scanned α → Scanned β
  | .ok (a, after) => .ok (f a, after)
  | .error place => .error place

/-- A text without the word that marks a variable for export. -/
def dropExport (text : List Char) : List Char :=
  match text with
  | 'e' :: 'x' :: 'p' :: 'o' :: 'r' :: 't' :: c :: rest =>
    if isInlineBlank c then rest.dropWhile isInlineBlank else text
  | _ => text

/-- A character of a name without quotes. -/
def isNameChar (c : Char) : Bool := c ≠ '=' && c ≠ '#' && !Text.isBlank c

/-- The name at the start of a statement. -/
def scanName (text : List Char) : Scanned (List Char) :=
  match text with
  | '\'' :: rest =>
    let name := rest.takeWhile (· ≠ '\'')
    match rest.drop name.length with
    | [] => .error text
    | _ :: after => if name = [] then .error text else .ok (name, after)
  | _ =>
    let name := text.takeWhile isNameChar
    if name = [] then .error text else .ok (name, text.drop name.length)

/-- The part of a line before a comment, which starts with a number sign after a blank. -/
def beforeComment : List Char → List Char
  | [] => []
  | c :: rest =>
    if Text.isBlank c ∧ (rest.dropWhile Text.isBlank).head? = some '#' then []
    else c :: beforeComment rest

/-- A value without quotes: its line up to a comment.  If a blank stands `apart` from it and the
equals sign, the comment may come at once. -/
def plainValue (apart : Bool) (line : List Char) : List Char :=
  if apart ∧ line.head? = some '#' then []
  else ((beforeComment line).reverse.dropWhile Text.isBlank).reverse

/-- A value between quotes, given the text that starts with the first quote and what follows. -/
def scanQuoted (quote : Char) (escape? : Char → Option Char) (text rest : List Char) :
    Scanned (List Char) :=
  match untilQuote quote rest with
  | some (value, after) => .ok (unescape escape? value, after)
  | none => .error text

/-- The value that follows an equals sign. -/
def scanValue (text : List Char) : Scanned (List Char) :=
  let start := text.dropWhile isInlineBlank
  match start with
  | '\'' :: rest => scanQuoted '\'' singleEscape? start rest
  | '"' :: rest => scanQuoted '"' doubleEscape? start rest
  | _ =>
    let line := start.takeWhile (· ≠ '\n')
    .ok (plainValue (start.length < text.length) line, start.drop line.length)

/-- The value of a name, if there is an equals sign. -/
def scanAssigned (text : List Char) : Scanned (Option (List Char)) :=
  match text.dropWhile isInlineBlank with
  | '=' :: rest => (scanValue rest).map some
  | after => .ok (none, after)

/-- The end of a statement: perhaps a comment, and the end of the line. -/
def scanEnd (text : List Char) : Scanned Unit :=
  let line := text.dropWhile isInlineBlank
  let after := if line.head? = some '#' then line.dropWhile (· ≠ '\n') else line
  match after with
  | [] => .ok ((), [])
  | c :: rest => if c = '\n' then .ok ((), rest) else .error text

/-! ### What is left

Every part of a statement takes its characters off the front of the text, so what is left is no
longer than the text was; and a name, like a comment, takes at least one. -/

/-- The text after a part, or the text at which it fails. -/
def Scanned.left {α : Type} : Scanned α → List Char
  | .ok (_, after) => after
  | .error place => place

@[simp] theorem Scanned.left_map {α β : Type} (f : α → β) (r : Scanned α) :
    (r.map f).left = r.left := by
  cases r <;> rfl

theorem Scanned.map_eq_ok {α β : Type} {f : α → β} {r : Scanned α} {b : β} {after : List Char}
    (h : r.map f = .ok (b, after)) : ∃ a, r = .ok (a, after) := by
  cases r with
  | ok r =>
    cases h
    exact ⟨r.1, rfl⟩
  | error place => cases h

theorem length_dropWhile_le (p : Char → Bool) (text : List Char) :
    (text.dropWhile p).length ≤ text.length :=
  (List.dropWhile_suffix p).length_le

theorem length_dropExport_le (text : List Char) : (dropExport text).length ≤ text.length := by
  unfold dropExport
  split
  · rename_i c rest
    have h := length_dropWhile_le isInlineBlank rest
    split
    · simp only [List.length_cons]
      omega
    · exact Nat.le_refl _
  · exact Nat.le_refl _

theorem length_untilQuote_lt (quote : Char) (text : List Char) :
    ∀ value after, untilQuote quote text = some (value, after) → after.length < text.length := by
  fun_induction untilQuote quote text with
  | case1 => simp
  | case2 c rest ih =>
    intro value after h
    obtain ⟨⟨text, left⟩, hrest, he⟩ := Option.map_eq_some_iff.1 h
    obtain ⟨rfl, rfl⟩ := Prod.mk.inj he
    have := ih _ _ hrest
    simp only [List.length_cons]
    omega
  | case3 rest =>
    rintro _ _ ⟨⟩
    simp
  | case4 c rest _ hc ih =>
    intro value after h
    obtain ⟨⟨text, left⟩, hrest, he⟩ := Option.map_eq_some_iff.1 h
    obtain ⟨rfl, rfl⟩ := Prod.mk.inj he
    have := ih _ _ hrest
    simp only [List.length_cons]
    omega

theorem length_left_scanName_le (text : List Char) :
    (scanName text).left.length ≤ text.length := by
  unfold scanName
  split
  · rename_i rest
    simp only
    split
    · exact Nat.le_refl _
    · rename_i after h
      have : after.length < rest.length := by
        have := congrArg List.length h
        simp only [List.length_drop, List.length_cons] at this
        omega
      split <;> simp only [Scanned.left, List.length_cons] <;> omega
  · simp only
    split <;> simp [Scanned.left]

theorem length_scanName_lt {text name after : List Char} (h : scanName text = .ok (name, after)) :
    after.length < text.length := by
  unfold scanName at h
  split at h
  · rename_i rest
    simp only at h
    split at h
    · cases h
    · rename_i left hdrop
      split at h <;> cases h
      have := congrArg List.length hdrop
      simp only [List.length_drop, List.length_cons] at this ⊢
      omega
  · simp only at h
    split at h <;> cases h
    rename_i hname
    have hpos := List.length_pos_iff.2 hname
    have hle := (List.takeWhile_prefix isNameChar (l := text)).length_le
    simp only [List.length_drop]
    omega

theorem length_left_scanValue_le (text : List Char) :
    (scanValue text).left.length ≤ text.length := by
  have hstart := length_dropWhile_le isInlineBlank text
  have hquoted : ∀ quote escape? rest start, start = quote :: rest →
      start.length ≤ text.length →
      (scanQuoted quote escape? start rest).left.length ≤ text.length := by
    intro quote escape? rest start hs hle
    unfold scanQuoted
    split
    · rename_i value after h
      have := length_untilQuote_lt _ _ _ _ h
      simp only [Scanned.left, hs, List.length_cons] at hle ⊢
      omega
    · exact hle
  unfold scanValue
  simp only
  split
  · rename_i rest h
    exact hquoted _ _ _ _ h hstart
  · rename_i rest h
    exact hquoted _ _ _ _ h hstart
  · simp only [Scanned.left, List.length_drop]
    omega

theorem length_left_scanAssigned_le (text : List Char) :
    (scanAssigned text).left.length ≤ text.length := by
  have hstart := length_dropWhile_le isInlineBlank text
  unfold scanAssigned
  split
  · rename_i rest h
    have := length_left_scanValue_le rest
    rw [h, List.length_cons] at hstart
    rw [Scanned.left_map]
    omega
  · exact hstart

theorem length_left_scanEnd_le (text : List Char) :
    (scanEnd text).left.length ≤ text.length := by
  have hline := length_dropWhile_le isInlineBlank text
  have hrest := length_dropWhile_le (· ≠ '\n') (text.dropWhile isInlineBlank)
  unfold scanEnd
  simp only
  split
  · simp [Scanned.left]
  · rename_i c rest h
    split
    · have := congrArg List.length h
      simp only [Scanned.left, List.length_cons] at this ⊢
      split at this <;> omega
    · exact Nat.le_refl _

/-- A comment is taken off, and with it the number sign. -/
theorem length_scanEnd_lt {text after : List Char} (hcomment : text.head? = some '#')
    (h : scanEnd text = .ok ((), after)) : after.length < text.length := by
  obtain ⟨rest, rfl⟩ := List.head?_eq_some_iff.1 hcomment
  have hblank : isInlineBlank '#' = false := by decide +kernel
  have hsign : ('#' :: rest).dropWhile (· ≠ '\n') = rest.dropWhile (· ≠ '\n') :=
    List.dropWhile_cons_of_pos (by decide)
  have hrest := length_dropWhile_le (· ≠ '\n') rest
  unfold scanEnd at h
  rw [List.dropWhile_cons_of_neg (by simp [hblank])] at h
  simp only [List.head?_cons, if_true, hsign] at h
  split at h
  · cases h
    simp
  · rename_i c left heq
    split at h <;> cases h
    have := congrArg List.length heq
    simp only [List.length_cons] at this ⊢
    omega

/-! ### Statements -/

/-- What a part of a file says. -/
inductive Statement where
  /-- Nothing. -/
  | empty
  /-- A name has a value, or it has none. -/
  | assign (name : String) (value : Option String)
  /-- It cannot be read; it starts at a line. -/
  | unreadable (line : Nat)
  deriving DecidableEq, Repr

/-- A name with its value, up to the end of the statement. -/
def scanAssignment (text : List Char) : Scanned Statement :=
  match scanName text with
  | .error place => .error place
  | .ok (name, afterName) => match scanAssigned afterName with
    | .error place => .error place
    | .ok (value, afterValue) => (scanEnd afterValue).map fun () =>
      .assign (String.ofList name) (value.map String.ofList)

theorem length_left_scanAssignment_le (text : List Char) :
    (scanAssignment text).left.length ≤ text.length := by
  have hname := length_left_scanName_le text
  unfold scanAssignment
  split
  · rename_i place h
    rwa [h] at hname
  · rename_i name afterName h
    rw [h] at hname
    have hassigned := length_left_scanAssigned_le afterName
    split
    · rename_i place h
      rw [h] at hassigned
      exact Nat.le_trans hassigned hname
    · rename_i value afterValue h
      rw [h] at hassigned
      rw [Scanned.left_map]
      exact Nat.le_trans (length_left_scanEnd_le afterValue) (Nat.le_trans hassigned hname)

theorem length_scanAssignment_lt {text rest : List Char} {statement : Statement}
    (h : scanAssignment text = .ok (statement, rest)) : rest.length < text.length := by
  unfold scanAssignment at h
  split at h
  · cases h
  · rename_i name afterName hname
    have hlt := length_scanName_lt hname
    have hassigned := length_left_scanAssigned_le afterName
    split at h
    · cases h
    · rename_i value afterValue hvalue
      rw [hvalue] at hassigned
      obtain ⟨⟨⟩, hend⟩ := Scanned.map_eq_ok h
      have hle := length_left_scanEnd_le afterValue
      rw [hend] at hle
      exact Nat.lt_of_le_of_lt (Nat.le_trans hle hassigned) hlt

/-- The statement at the start of a text, blanks before it included. -/
def scanStatement (text : List Char) : Scanned Statement :=
  let start := text.dropWhile Text.isBlank
  let named := dropExport start
  if start = [] then .ok (.empty, [])
  else if named.head? = some '#' then (scanEnd named).map fun () => .empty
  else scanAssignment named

/-- What follows the end of a line. -/
def dropLine (text : List Char) : List Char := (text.dropWhile (· ≠ '\n')).drop 1

theorem length_left_scanStatement_le (text : List Char) :
    (scanStatement text).left.length ≤ text.length := by
  have hstart := length_dropWhile_le Text.isBlank text
  have hnamed := length_dropExport_le (text.dropWhile Text.isBlank)
  have hassignment := length_left_scanAssignment_le (dropExport (text.dropWhile Text.isBlank))
  unfold scanStatement
  simp only
  split
  · simp [Scanned.left]
  · split
    · rw [Scanned.left_map]
      exact Nat.le_trans (length_left_scanEnd_le _) (Nat.le_trans hnamed hstart)
    · omega

/-- A statement takes something off a text. -/
theorem length_scanStatement_lt {text rest : List Char} {statement : Statement}
    (htext : text ≠ []) (h : scanStatement text = .ok (statement, rest)) :
    rest.length < text.length := by
  have hstart := length_dropWhile_le Text.isBlank text
  have hnamed := length_dropExport_le (text.dropWhile Text.isBlank)
  unfold scanStatement at h
  simp only at h
  split at h
  · cases h
    exact List.length_pos_iff.2 htext
  · split at h
    · rename_i hcomment
      obtain ⟨⟨⟩, hend⟩ := Scanned.map_eq_ok h
      have := length_scanEnd_lt hcomment hend
      omega
    · have := length_scanAssignment_lt h
      omega

theorem length_dropLine_lt {text : List Char} (h : text ≠ []) :
    (dropLine text).length < text.length := by
  have hpos := List.length_pos_iff.2 h
  have hle := length_dropWhile_le (· ≠ '\n') text
  simp only [dropLine, List.length_drop]
  omega

/-- What is left of a text after a part that cannot be read is shorter than the text. -/
theorem length_dropLine_left_lt {text place : List Char} (htext : text ≠ [])
    (h : scanStatement text = .error place) : (dropLine place).length < text.length := by
  have hle := length_left_scanStatement_le text
  rw [h] at hle
  by_cases hplace : place = []
  · subst hplace
    exact List.length_pos_iff.2 htext
  · exact Nat.lt_of_lt_of_le (length_dropLine_lt hplace) hle

/-- What a text says that starts at a line. -/
def statementsFrom (line : Nat) (text : List Char) : List Statement :=
  if htext : text = [] then []
  else match h : scanStatement text with
    | .ok (statement, rest) =>
      have := length_scanStatement_lt htext h
      statement :: statementsFrom (line + (text.count '\n' - rest.count '\n')) rest
    | .error place =>
      have := length_dropLine_left_lt htext h
      let rest := dropLine place
      .unreadable line :: statementsFrom (line + (text.count '\n' - rest.count '\n')) rest
termination_by text.length

/-- What a file says.  A mark of the byte order at its start is no part of it. -/
def statements (text : List Char) : List Statement :=
  let text := Text.unifyLineEnds text
  statementsFrom 1 (if text.head? = some '\uFEFF' then text.drop 1 else text)

example :
    statements "a=1 # one\n\nno value\nexport 'b c'=\"x\\ty\"".toList =
      [.assign "a" (some "1"), .unreadable 2, .assign "b c" (some "x\ty")] := by
  cbv

end Offside.Assignments
