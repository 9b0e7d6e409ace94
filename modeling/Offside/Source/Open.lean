import Offside.Source.Chunks
import Offside.Value

/-!
# Opening values as sources

A value that has parts can be read: its parts are the chunks.  Bytes have no characters until
they are decoded, and the other values have none at all.

## Main definitions

* `OpenError` — why something cannot be read.
* `ChunkSource.ofValue` — a value as a source.
-/

namespace Offside

/-- Why something cannot be opened as a source. -/
inductive OpenError where
  /-- It is bytes. -/
  | bytes
  /-- It has no parts. -/
  | noParts (v : Value)

/-- The refusal in words. -/
def OpenError.message : OpenError → String
  | bytes => "decode bytes before transforming them"
  | noParts v => "cannot read characters from " ++ v.typeName

/-- A producer that delivers texts and never fails. -/
def Producer.ofTexts (texts : List (List CodePoint)) : Producer where
  chunks := texts.map .text

/-- A value read by its parts. -/
def ChunkSource.ofValue (v : Value) (name : Option String) : Except OpenError ChunkSource :=
  match v.items? with
  | none => .error (.noParts v)
  | some items => .ok { producer := .ofTexts (items.map Value.asText), name := name }

end Offside
