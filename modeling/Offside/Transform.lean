import Offside.Engine.Configure
import Offside.Source.Text
import Offside.Stream.Read

/-!
# Transforming a whole input

One call that opens a stream over a source, configures it, reads it to the end and closes it.
The options come by name with values of any type.  An unknown name is refused before anything
is opened; whatever fails later, the source is closed.  If closing fails, that is reported in the
place of a text and of any other error.

## Main definitions

* `Options` — the options that were given.
* `OptionError` — why options are refused.
* `Options.ofEntries` — options by name.
* `Engine.configure` — options in force.
* `transform`, `transformNamed` — the whole call, with options and with options by name.
-/

namespace Offside

/-! ### Options -/

/-- The options of a call, as far as they were given. -/
structure Options where
  /-- The mark of an opening block. -/
  indentMark : Option Value := none
  /-- The mark of a closing block. -/
  dedentMark : Option Value := none
  /-- The character that ends a line. -/
  newline : Option Value := none
  /-- Whether the leading whitespace of a line is delivered. -/
  keepWhitespace : Option Value := none
  /-- The whitespace characters, in place of the usual ones. -/
  whitespace : Option Value := none
  /-- Characters that escape the rest of their line. -/
  lineEscapes : Option Value := none
  /-- Pairs of characters that escape what is between them. -/
  pairedEscapes : Option Value := none

/-- Why options are refused. -/
inductive OptionError where
  /-- There are no options of these names. -/
  | unknown (names : List String)
  /-- A value that has to be a single character is not. -/
  | notSingle (e : NotSingle)
  /-- A value that has to have parts has none. -/
  | noParts (v : Value)
  /-- The whitespace characters are given by a value that has no parts. -/
  | noWhitespace (v : Value)
  /-- A value that has to have two parts has none. -/
  | noPair (v : Value)
  /-- A pair has too few parts. -/
  | tooFew (count : Nat)
  /-- A pair has too many parts. -/
  | tooMany

/-- The refusal in words. -/
def OptionError.message : OptionError → String
  | unknown names => "unexpected transform options: " ++ ", ".intercalate names
  | notSingle e => e.message
  | noParts v => "'" ++ v.typeName ++ "' object is not iterable"
  | noWhitespace v =>
    "indentdedent.lib.stream.IndentDedentStream.whitespace_add() argument after * must be an " ++
      "iterable, not " ++ v.typeName
  | noPair v => "cannot unpack non-iterable " ++ v.typeName ++ " object"
  | tooFew count => s!"not enough values to unpack (expected 2, got {count})"
  | tooMany => "too many values to unpack (expected 2)"

namespace Options

/-- Sets the option of a name, if there is one. -/
def set (o : Options) (name : String) (v : Value) : Option Options :=
  if name = "indent_char" then some { o with indentMark := some v }
  else if name = "dedent_char" then some { o with dedentMark := some v }
  else if name = "newline_char" then some { o with newline := some v }
  else if name = "keep_whitespace" then some { o with keepWhitespace := some v }
  else if name = "whitespace" then some { o with whitespace := some v }
  else if name = "single_line_escapes" then some { o with lineEscapes := some v }
  else if name = "paired_escapes" then some { o with pairedEscapes := some v }
  else none

/-- A name is known if it can be set. -/
def known (name : String) : Bool := (({} : Options).set name .null).isSome

/-- The options of a list of names and values.  If there are unknown names, they are refused
together and in order. -/
def ofEntries (entries : List (String × Value)) : Except OptionError Options :=
  match (entries.map Prod.fst).filter (!known ·) with
  | [] => .ok (entries.foldl (fun o entry => (o.set entry.1 entry.2).getD o) {})
  | names => .error (.unknown (names.mergeSort fun a b => decide (a ≤ b)))

end Options

/-! ### Options in force -/

namespace Engine

/-- Applies an option, if it was given. -/
def given (e : Engine) (option : Option Value) (set : Engine → Value → Except OptionError Engine) :
    Except OptionError Engine :=
  match option with
  | none => .ok e
  | some v => set e v

/-- The parts of a value that has to have parts. -/
def parts (v : Value) : Except OptionError (List Value) :=
  match v.items? with
  | some items => .ok items
  | none => .error (.noParts v)

/-- Puts the whitespace characters in the place of the usual ones. -/
def replaceWhitespace (e : Engine) (v : Value) : Except OptionError Engine :=
  match v.items? with
  | none => .error (.noWhitespace v)
  | some items => match e.clearWhitespace.addWhitespace items with
    | (e, none) => .ok e
    | (_, some refusal) => .error (.notSingle refusal)

/-- Registers one pair of delimiters. -/
def addPair (e : Engine) (v : Value) : Except OptionError Engine :=
  match v.items? with
  | none => .error (.noPair v)
  | some [opening, closing] => (e.addPaired opening closing).mapError .notSingle
  | some items =>
    if items.length < 2 then .error (.tooFew items.length) else .error .tooMany

/-- The engine with the options in force, or the first refusal. -/
def configure (e : Engine) (o : Options) : Except OptionError Engine := do
  let e ← e.given o.indentMark fun e v => (e.setIndentMark v).mapError .notSingle
  let e ← e.given o.dedentMark fun e v => (e.setDedentMark v).mapError .notSingle
  let e ← e.given o.newline fun e v => (e.setNewline v).mapError .notSingle
  let e ← e.given o.keepWhitespace fun e v => .ok (e.setKeepWhitespace v)
  let e ← e.given o.whitespace replaceWhitespace
  let e ← e.given o.lineEscapes fun e v => do
    (← parts v).foldlM (fun e opening => (e.addLine opening).mapError .notSingle) e
  e.given o.pairedEscapes fun e v => do (← parts v).foldlM addPair e

end Engine

/-! ### The call -/

/-- Why a transformation fails. -/
inductive TransformError where
  /-- An option is refused. -/
  | option (e : OptionError)
  /-- Reading fails. -/
  | read (e : ReadError)

/-- A transformation: its text or its error, the source it leaves behind, and the notices. -/
structure Transformed (σ : Type) where
  /-- The text. -/
  outcome : Except TransformError (List CodePoint)
  /-- The source afterwards. -/
  source : σ
  /-- What was reported. -/
  notices : List Notice

/-- Reads a source through a stream with the given options, to the end. -/
def transform {σ : Type} [CharSource σ] (source : σ) (o : Options) : Transformed σ :=
  let stream := Stream.ofSource source none
  match stream.engine.configure o with
  | .error e =>
    let closed := stream.close
    ⟨closed.outcome.mapError .read >>= fun _ => .error (.option e), closed.next.source,
      closed.notices⟩
  | .ok engine =>
    let reply := { stream with engine := engine }.readAndClose (-1)
    ⟨reply.outcome.mapError .read, reply.next.source, reply.notices⟩

/-- A transformation with options by name.  If there are unknown names the source is not touched. -/
def transformNamed {σ : Type} [CharSource σ] (source : σ) (entries : List (String × Value)) :
    Transformed σ :=
  match Options.ofEntries entries with
  | .error e => ⟨.error (.option e), source, []⟩
  | .ok o => transform source o

/-- The text of a transformed text, with the usual conventions. -/
example :
    (transform { rest := "Hello\n  World".codePoints : TextSource } {}).outcome.toOption =
      some "Hello\n>World<".codePoints := by
  decide +kernel

end Offside
