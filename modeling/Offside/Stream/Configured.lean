import Offside.Engine.Configure
import Offside.Settings
import Offside.Stream.Read

/-!
# Streams from settings

Settings that have been accepted put an analysis in force without further checks: the characters
that escape the rest of their line become rules that close at the newline, and the pairs follow
them.

They may also be installed in a stream that is open already, by one change of its conventions after
the other.  Then every value is checked again, as it is for any other change.

## Main definitions

* `Engine.ofSettings` — the analysis of some settings.
* `Stream.ofSettings` — a stream with it.
* `Engine.install`, `Stream.install` — the same by changes that are checked one by one.
-/

namespace Offside

namespace Settings

/-- The conventions of the settings. -/
def layout (s : Settings) : Layout :=
  let unmarked : Layout :=
    { indentMark := s.indentMark, dedentMark := s.dedentMark, newline := s.newline
      keepWhitespace := s.keepWhitespace, whitespace := [] }
  s.whitespace.foldl Layout.addWhitespace unmarked

/-- The escape rules of the settings. -/
def rules (s : Settings) : List Rule :=
  s.lineEscapes.map (fun c => ⟨c, s.newline⟩) ++ s.pairs.map fun p => ⟨p.1, p.2⟩

end Settings

/-- The analysis of some settings. -/
def Engine.ofSettings (s : Settings) : Engine :=
  { layout := s.layout, tracker := { rules := s.rules } }

/-- A stream over a source with the analysis of some settings. -/
def Stream.ofSettings {σ : Type} [CharSource σ] (source : σ) (s : Settings)
    (name : Option String) : Stream σ :=
  { Stream.ofSource source name with engine := .ofSettings s }

/-! ### One change after the other -/

/-- Why settings cannot be installed. -/
inductive InstallError where
  /-- A value that has to be a single character is not. -/
  | notSingle (e : NotSingle)
  /-- A value that is to be whitespace no longer can be no member of a set. -/
  | notMember (e : Engine.NotMember)
  /-- A piece of the escape pairs has less than two characters. -/
  | tooShort (piece : List CodePoint)

/-- The refusal in words. -/
def InstallError.message : InstallError → String
  | notSingle e => e.message
  | notMember e => e.message
  | tooShort _ => "string index out of range"

/-- A character as a value. -/
def Value.ofChar (c : CodePoint) : Value := .text [c]

/-- The first two characters of a piece of the escape pairs. -/
def Pairs.delimiters : List CodePoint → Except InstallError (CodePoint × CodePoint)
  | opening :: closing :: _ => .ok (opening, closing)
  | piece => .error (.tooShort piece)

namespace Engine

/-- Counts characters as whitespace in the place of those that have been. -/
def exchangeWhitespace (e : Engine) (old new : List Value) : Except InstallError Engine :=
  match e.removeWhitespace old with
  | (_, some refusal) => .error (.notMember refusal)
  | (e, none) => match e.addWhitespace new with
    | (_, some refusal) => .error (.notSingle refusal)
    | (e, none) => .ok e

/-- Installs settings by one change after the other, up to the first that is refused. -/
def install (e : Engine) (s : Settings) : Except InstallError Engine := do
  let e ← (e.setIndentMark (s.value .indentMark)).mapError .notSingle
  let e ← (e.setDedentMark (s.value .dedentMark)).mapError .notSingle
  let e ← (e.setNewline (s.value .newline)).mapError .notSingle
  let e := e.setKeepWhitespace (s.value .keepWhitespace)
  let e ← e.exchangeWhitespace (e.layout.whitespace.map .ofChar) (s.whitespace.map .ofChar)
  let e ← (s.lineEscapes.map .ofChar).foldlM (fun e opening =>
    (e.addLine opening).mapError .notSingle) e
  let pairs ← (Pairs.split s.pairedEscapes).mapM Pairs.delimiters
  pairs.foldlM (fun e p => (e.addPaired (.ofChar p.1) (.ofChar p.2)).mapError .notSingle) e

end Engine

/-- A stream over a source in which settings have been installed. -/
def Stream.install {σ : Type} [CharSource σ] (source : σ) (s : Settings) (name : Option String) :
    Except InstallError (Stream σ) :=
  let stream := Stream.ofSource source name
  (stream.engine.install s).map fun e => { stream with engine := e }

end Offside
