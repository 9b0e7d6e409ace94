import Offside.Text.Digit
import Offside.Value

/-!
# The arguments of the command line

A command line gives values to options and to two positions, in any order.

* An option is named in full, or by the start of a long name that no other long name shares.
  A value follows as the next argument, or in the same one after an equals sign.
* Options of one letter without a value may be joined behind one dash.
* Two dashes alone end the options: all that follows is for the positions.  Where they stand for
  a value, they are no text but nothing at all.
* A dash alone, a negative number, and an argument that starts with a dash but contains a space
  are no options.

Every argument is classified before any takes effect.  Then they take effect from left to right,
and at the end it is checked that nothing is missing and that nothing is left over.

## Main definitions

* `Choice` — the options, with their spellings.
* `Arguments` — what a command line gives.
* `ArgumentError` — why it is refused.
* `Arguments.parse` — reading it.
-/

namespace Offside

/-! ### Options -/

/-- An option of the command line. -/
inductive Choice where
  | help
  | inputFile
  | outputFile
  | indentChar
  | dedentChar
  | keepWhitespace
  | lineEscape
  | pairedEscape
  | whitespace
  | verbosity
  | version
  | saveInputMeta
  | saveOutputMeta
  deriving DecidableEq, Repr

namespace Choice

/-- The options in order. -/
def all : List Choice :=
  [help, inputFile, outputFile, indentChar, dedentChar, keepWhitespace, lineEscape, pairedEscape,
    whitespace, verbosity, version, saveInputMeta, saveOutputMeta]

theorem mem_all (c : Choice) : c ∈ all := by cases c <;> decide

/-- The names of an option. -/
def spellings : Choice → List String
  | help => ["-h", "--help"]
  | inputFile => ["--inputFile"]
  | outputFile => ["--outputFile"]
  | indentChar => ["--indentChar"]
  | dedentChar => ["--dedentChar"]
  | keepWhitespace => ["--keepWhitespace"]
  | lineEscape => ["--lineEscape"]
  | pairedEscape => ["--pairedEscape"]
  | whitespace => ["--whitespace"]
  | verbosity => ["-v", "--verbosity"]
  | version => ["-V", "--version"]
  | saveInputMeta => ["--saveinputmeta"]
  | saveOutputMeta => ["--saveoutputmeta"]

/-- Whether an option has a value. -/
def takesValue : Choice → Bool
  | inputFile | outputFile | indentChar | dedentChar | lineEscape | pairedEscape | whitespace =>
    true
  | _ => false

/-- All names in order, each with its option. -/
def spelled : List (String × Choice) :=
  all.flatMap fun c => c.spellings.map fun spelling => (spelling, c)

/-- The option of a name. -/
def ofSpelling? (spelling : String) : Option Choice := spelled.lookup spelling

/-- An option as messages name it. -/
def display (c : Choice) : String := "/".intercalate c.spellings

end Choice

/-! ### What a command line gives -/

/-- What a run is asked to do.  The values have no type of their own: those of a command line are
texts, but others may ask too. -/
structure Arguments where
  /-- How much is reported. -/
  verbosity : Value := .int 1
  /-- The input file. -/
  inputFile : Value := .text ""
  /-- The output file; empty if it is to be derived. -/
  outputFile : Value := .text ""
  /-- Another mark for opening blocks. -/
  indentChar : Value := .null
  /-- Another mark for closing blocks. -/
  dedentChar : Value := .null
  /-- Whether to keep leading whitespace. -/
  keepWhitespace : Value := .bool false
  /-- Characters that escape the rest of their line. -/
  lineEscape : Value := .list []
  /-- Pairs of characters that escape what is between them. -/
  pairedEscape : Value := .list []
  /-- Other whitespace characters. -/
  whitespace : Value := .null

/-- Why a command line is refused. -/
inductive ArgumentError where
  /-- The start of a name fits several. -/
  | ambiguous (argument : String) (names : List String)
  /-- An option has no value. -/
  | noValue (c : Choice)
  /-- An option that has no value is given one. -/
  | extraValue (c : Choice) (value : String)
  /-- Something is not given. -/
  | missing (names : List String)
  /-- Something is left over. -/
  | leftOver (arguments : List String)
  deriving DecidableEq, Repr

/-- The refusal in words. -/
def ArgumentError.message : ArgumentError → String
  | ambiguous argument names =>
    "ambiguous option: " ++ argument ++ " could match " ++ ", ".intercalate names
  | noValue c => "argument " ++ c.display ++ ": expected one argument"
  | extraValue c value =>
    "argument " ++ c.display ++ ": ignored explicit argument " ++ Text.quoted value.codePoints
  | missing names => "the following arguments are required: " ++ ", ".intercalate names
  | leftOver arguments => "unrecognized arguments: " ++ " ".intercalate arguments

/-- What a command line asks for. -/
inductive Request where
  /-- A run, with the directories of the input and of the output. -/
  | run (a : Arguments) (inputDir outputDir : Value)
  /-- The version of the program. -/
  | version
  /-- How the program is called. -/
  | help

namespace Arguments

/-! ### Classifying arguments -/

/-- What an argument is. -/
inductive Word where
  /-- It ends the options. -/
  | separator
  /-- It is a value or belongs to a position. -/
  | plain (text : String)
  /-- It names an option, and may have a text attached to the name. -/
  | choice (c : Choice) (spelling : String) (attached : Option (List Char))
  /-- It looks like an option and is none. -/
  | unknown (text : String)
  deriving DecidableEq, Repr

/-- The part of a text before its first equals sign, and the text after it. -/
def splitEquals (text : List Char) : String × Option (List Char) :=
  match text.dropWhile (· ≠ '=') with
  | [] => (String.ofList text, none)
  | _ :: value => (String.ofList (text.takeWhile (· ≠ '=')), some value)

/-- A negative number: digits with at most one point, of which digits follow.  A line feed may
end it. -/
def isNegativeNumber (text : List Char) : Bool :=
  let text := if text.getLast? = some '\n' then text.dropLast else text
  match text with
  | '-' :: rest =>
    match rest.dropWhile Text.isDecimalDigit with
    | [] => !rest.isEmpty
    | '.' :: places => !places.isEmpty && places.all Text.isDecimalDigit
    | _ => false
  | _ => false

/-- The options whose names an argument may be the start of.  Behind two dashes it is the start
of a long name; behind one, its first letter may be an option that the others are joined to. -/
def candidates (text : List Char) : List Word :=
  match text with
  | '-' :: '-' :: _ =>
    let (start, attached) := splitEquals text
    (Choice.spelled.filter fun s => start.toList.isPrefixOf s.1.toList).map
      fun s => .choice s.2 s.1 attached
  | '-' :: letter :: rest =>
    Choice.spelled.filterMap fun s =>
      if s.1.toList = ['-', letter] then some (.choice s.2 s.1 (some rest))
      else if text.isPrefixOf s.1.toList then some (.choice s.2 s.1 none)
      else none
  | _ => []

/-- The name of the option that a word is. -/
def Word.name? : Word → Option String
  | choice _ spelling _ => some spelling
  | _ => none

/-- What an argument is, by itself. -/
def classify (argument : String) : Except ArgumentError Word :=
  let text := argument.toList
  if text.head? ≠ some '-' ∨ text.length = 1 then .ok (.plain argument)
  else match Choice.ofSpelling? argument with
    | some c => .ok (.choice c argument none)
    | none =>
      let (start, attached) := splitEquals text
      match Choice.ofSpelling? start with
      | some c => .ok (.choice c start attached)
      | none => match candidates text with
        | [word] => .ok word
        | [] =>
          if isNegativeNumber text ∨ ' ' ∈ text then .ok (.plain argument)
          else .ok (.unknown argument)
        | words => .error (.ambiguous argument (words.filterMap Word.name?))

/-- What the arguments of a command line are: behind the first separator all are plain. -/
def classifyAll : List String → Except ArgumentError (List Word)
  | [] => .ok []
  | argument :: rest =>
    if argument = "--" then .ok (.separator :: rest.map Word.plain)
    else match classify argument with
      | .error e => .error e
      | .ok word => match classifyAll rest with
        | .error e => .error e
        | .ok words => .ok (word :: words)

/-! ### Taking effect -/

/-- A position of the command line. -/
inductive Position where
  | inputDir
  | outputDir
  deriving DecidableEq, Repr

/-- The name of a position. -/
def Position.name : Position → String
  | inputDir => "inputdir"
  | outputDir => "outputdir"

/-- How far a command line has been read. -/
structure Progress where
  /-- The options that have taken effect, with their values. -/
  chosen : List (Choice × Value) := []
  /-- The positions that are filled. -/
  filled : List (Position × Value) := []
  /-- The positions that are open. -/
  positions : List Position := [.inputDir, .outputDir]
  /-- What could not be used. -/
  unused : List String := []

namespace Progress

/-- An option takes effect. -/
def choose (p : Progress) (c : Choice) (value : Value) : Progress :=
  { p with chosen := p.chosen ++ [(c, value)] }

/-- Something cannot be used. -/
def leave (p : Progress) (argument : String) : Progress :=
  { p with unused := p.unused ++ [argument] }

/-- Whether a position is open. -/
def isOpen (p : Progress) : Bool := !p.positions.isEmpty

/-- The first open position is filled with the value of an argument. -/
def place (p : Progress) (argument : String) (value : Value) : Progress :=
  match p.positions with
  | [] => p.leave argument
  | position :: rest => { p with filled := p.filled ++ [(position, value)], positions := rest }

/-- The values of an option, in order. -/
def values (p : Progress) (c : Choice) : List Value :=
  p.chosen.filterMap fun (c', v) => if c' = c then some v else none

/-- The value of an option that counts, which is the last. -/
def value (p : Progress) (c : Choice) (usual : Value) : Value := (p.values c).getLastD usual

/-- What the options come to. -/
def arguments (p : Progress) : Arguments where
  verbosity := .int (1 + (p.values .verbosity).length)
  inputFile := p.value .inputFile (.text "")
  outputFile := p.value .outputFile (.text "")
  indentChar := p.value .indentChar .null
  dedentChar := p.value .dedentChar .null
  keepWhitespace := .bool !(p.values .keepWhitespace).isEmpty
  lineEscape := .list (p.values .lineEscape)
  pairedEscape := .list (p.values .pairedEscape)
  whitespace := p.value .whitespace .null

/-- What fills a position. -/
def directory (p : Progress) (position : Position) : Value :=
  (p.filled.lookup position).getD (.text "")

end Progress

/-- The value that an argument stands for: its text, or nothing if it is two dashes. -/
def valueOf (text : String) : Value := if text = "--" then .list [] else .text text

/-- Whether the name of an option has one dash only. -/
def isShort (spelling : String) : Bool := spelling.toList[1]? ≠ some '-'

/-- What an option and the letters joined to it come to: options without a value, and one after
them that may have the rest of the letters for a value. -/
def expandJoined (c : Choice) :
    List Char → Except ArgumentError (List Choice × Choice × Option String)
  | [] => .ok ([], c, none)
  | letter :: rest =>
    if c.takesValue then .ok ([], c, some (String.ofList (letter :: rest)))
    else match Choice.ofSpelling? (String.ofList ['-', letter]) with
      | none => .error (.extraValue c (String.ofList (letter :: rest)))
      | some next => (expandJoined next rest).map fun (flags, last) => (c :: flags, last)

/-- What the name of an option and the text attached to it come to. -/
def expand (c : Choice) (spelling : String) :
    Option (List Char) → Except ArgumentError (List Choice × Choice × Option String)
  | none => .ok ([], c, none)
  | some text =>
    if c.takesValue then .ok ([], c, some (String.ofList text))
    else if isShort spelling ∧ text ≠ [] then expandJoined c text
    else .error (.extraValue c (String.ofList text))

/-- The end of the reading of a command line. -/
inductive Halt where
  /-- It is refused. -/
  | refused (e : ArgumentError)
  /-- It asks for the version. -/
  | version
  /-- It asks for help. -/
  | help
  deriving DecidableEq, Repr

/-- Options take effect, up to the first that ends the reading. -/
def Progress.chooseAll (p : Progress) : List (Choice × Value) → Except Halt Progress
  | [] => .ok p
  | (.version, _) :: _ => .error .version
  | (.help, _) :: _ => .error .help
  | (c, value) :: rest => (p.choose c value).chooseAll rest

/-- Options without a value take effect, and then one that may have a value. -/
def Progress.chooseExpanded (p : Progress) (flags : List Choice) (last : Choice) (value : Value) :
    Except Halt Progress :=
  p.chooseAll (flags.map (fun c => (c, .null)) ++ [(last, value)])

/-- Reads the words from left to right; `filled` says whether the word before has filled a
position.  A separator belongs to the position that is filled right before it or else right after
it, and in the second case the position takes its word as it stands. -/
def consume (p : Progress) (filled : Bool) : List Word → Except Halt Progress
  | [] => .ok p
  | .plain text :: rest => consume (p.place text (valueOf text)) p.isOpen rest
  | .separator :: .plain text :: rest =>
    if filled then consume (p.place text (valueOf text)) p.isOpen rest
    else if p.isOpen then consume (p.place text (.text text)) true rest
    else consume ((p.leave "--").leave text) false rest
  | .separator :: rest => consume (if filled then p else p.leave "--") false rest
  | .unknown text :: rest => consume (p.leave text) false rest
  | .choice c spelling attached :: rest =>
    match expand c spelling attached with
    | .error e => .error (.refused e)
    | .ok (flags, last, value) =>
      match last.takesValue, value with
      | false, _ => match p.chooseExpanded flags last .null with
        | .error halt => .error halt
        | .ok p => consume p false rest
      | true, some value => match p.chooseExpanded flags last (valueOf value) with
        | .error halt => .error halt
        | .ok p => consume p false rest
      | true, none => match rest with
        | .plain value :: rest => match p.chooseExpanded flags last (.text value) with
          | .error halt => .error halt
          | .ok p => consume p false rest
        | _ => .error (.refused (.noValue last))

/-! ### The whole command line -/

/-- What is not given and has to be. -/
def Progress.missing (p : Progress) : List String :=
  (if (p.values .inputFile).isEmpty then ["--inputFile"] else []) ++ p.positions.map Position.name

/-- Reads a command line. -/
def parse (arguments : List String) : Except ArgumentError Request :=
  match classifyAll arguments with
  | .error e => .error e
  | .ok words => match consume {} false words with
    | .error (.refused e) => .error e
    | .error .version => .ok .version
    | .error .help => .ok .help
    | .ok p =>
      if p.missing ≠ [] then .error (.missing p.missing)
      else if p.unused ≠ [] then .error (.leftOver p.unused)
      else .ok (.run p.arguments (p.directory .inputDir) (p.directory .outputDir))

end Arguments

end Offside
