import Offside.Engine

/-!
# Configuring the analysis

The conventions of a text may be changed at any time, and a change applies from the next read
onwards.  Values come untyped: a mark, a newline or an escape delimiter has to be a single
character, and what is not is refused and changes nothing.

## Main definitions

* `Engine.setIndentMark`, `Engine.setDedentMark`, `Engine.setNewline`,
  `Engine.setKeepWhitespace` — one convention each.
* `Engine.addWhitespace`, `Engine.removeWhitespace` — the whitespace characters.
* `Engine.addRule`, `Engine.addPaired`, `Engine.addLine` — escape regions.
-/

namespace Offside

namespace Engine

/-! ### Conventions -/

/-- Changes the mark of an opening block. -/
def setIndentMark (e : Engine) (v : Value) : Except NotSingle Engine :=
  (v.single .indentMark).map fun c => { e with layout := { e.layout with indentMark := c } }

/-- Changes the mark of a closing block. -/
def setDedentMark (e : Engine) (v : Value) : Except NotSingle Engine :=
  (v.single .dedentMark).map fun c => { e with layout := { e.layout with dedentMark := c } }

/-- Changes the character that ends a line. -/
def setNewline (e : Engine) (v : Value) : Except NotSingle Engine :=
  (v.single .newline).map fun c => { e with layout := { e.layout with newline := c } }

/-- Keeps or drops the leading whitespace of a line, as the value is true or not. -/
def setKeepWhitespace (e : Engine) (v : Value) : Engine :=
  { e with layout := { e.layout with keepWhitespace := v.truthy } }

/-! ### Whitespace -/

/-- Counts characters as whitespace, one after the other, up to the first value that is not a
single character. -/
def addWhitespace (e : Engine) : List Value → Engine × Option NotSingle
  | [] => (e, none)
  | v :: rest => match v.single .whitespace with
    | .error refusal => (e, some refusal)
    | .ok c => addWhitespace { e with layout := e.layout.addWhitespace c } rest

/-- A value that can be no member of a set, because it may change. -/
structure NotMember where
  /-- The value. -/
  given : Value

/-- The refusal in words. -/
def NotMember.message (e : NotMember) : String := s!"unhashable type: '{e.given.typeName}'"

/-- Counts characters as whitespace no longer, one after the other, up to the first list or
object.  Any other value that is not a single character is not whitespace anyway. -/
def removeWhitespace (e : Engine) : List Value → Engine × Option NotMember
  | [] => (e, none)
  | .list items :: _ => (e, some ⟨.list items⟩)
  | .object entries :: _ => (e, some ⟨.object entries⟩)
  | v :: rest => match v.char? with
    | some c => removeWhitespace { e with layout := e.layout.removeWhitespace c } rest
    | none => removeWhitespace e rest

/-- Counts no character as whitespace. -/
def clearWhitespace (e : Engine) : Engine :=
  { e with layout := { e.layout with whitespace := [] } }

/-! ### Escape regions -/

/-- Registers an escape rule. -/
def addRule (e : Engine) (r : Rule) : Engine := { e with tracker := e.tracker.add r }

/-- Escapes the text from one character through another. -/
def addPaired (e : Engine) (opening closing : Value) : Except NotSingle Engine :=
  (Rule.ofValues opening closing).map e.addRule

/-- Escapes the text from a character to the end of its line.  The rule closes at the newline
of the time when it is registered. -/
def addLine (e : Engine) (opening : Value) : Except NotSingle Engine :=
  e.addPaired opening (.text [e.layout.newline])

end Engine

end Offside
