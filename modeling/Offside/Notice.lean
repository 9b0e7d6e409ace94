import Offside.Escape
import Offside.Text.Blank
import Offside.Text.Template
import Offside.Level

/-!
# Notices

What a run reports while it works.  Every report has a **level**, and whoever listens has a
**verbosity**: a report is heard if the verbosity reaches its level.  Nothing is decided by
being heard or not, so the analysis always reports everything and the gate stands outside.

## Main definitions

* `Log.Entry`, `Log.Entry.severity` — a report as text, and the name of its level.
* `Log.heard` — the reports that a verbosity lets through.
* `Log.report` — a report whose text is a template.
* `Notice` — the reports that the analysis itself makes.
* `Notice.entry` — the wording of a notice.
-/

namespace Offside

namespace Log

/-! ### Reports and the gate -/

/-- The names under which reports appear. -/
inductive Severity where
  | info
  | debug
  | trace
  deriving DecidableEq, Repr

/-- A severity as it is written. -/
def Severity.name : Severity → String
  | info => "INFO"
  | debug => "DEBUG"
  | trace => "TRACE"

/-- A report with its level. -/
structure Entry where
  /-- The verbosity it needs. -/
  level : Int
  /-- Its text. -/
  text : String
  deriving DecidableEq, Repr

/-- The stages of a run report at level 1, paths and ends of streams at level 2, and all other
levels are traces. -/
def Entry.severity (e : Entry) : Severity :=
  if e.level = 1 then .info else if e.level = 2 then .debug else .trace

/-- The reports that `verbosity` lets through, in order. -/
def heard (verbosity : Int) (entries : List Entry) : List Entry :=
  entries.filter fun e => e.level ≤ verbosity

@[simp] theorem heard_nil (verbosity : Int) : heard verbosity [] = [] := rfl

/-- Why a report cannot be made. -/
inductive Refusal where
  /-- A value has a name that the report itself has a value of. -/
  | taken (name : String)
  /-- The text is no template for the values. -/
  | template (failure : Template.Failure)

/-- The refusal in words. -/
def Refusal.message : Refusal → String
  | taken name => s!"LOG() got multiple values for argument '{name}'"
  | template failure => failure.message

/-- What a report itself has values of. -/
def ownNames : List String := ["message", "level"]

/-- A report whose text is a template for `values`; without values the text stands as it is.
The names are checked in any case, but only a report that is heard is filled. -/
def report (verbosity : Int) (values : List (String × Value)) (e : Entry) :
    Except Refusal (List Entry) :=
  match values.find? fun value => value.1 ∈ ownNames with
  | some (name, _) => .error (.taken name)
  | none => (heard verbosity [e]).mapM fun e =>
    if values.isEmpty then .ok e
    else ((Template.fill values e.text).mapError .template).map fun text => { e with text }

end Log

/-! ### Notices of the analysis -/

/-- A report of the analysis. -/
inductive Notice where
  /-- A line opened a level. -/
  | indent (line : Nat) (pushed : List CodePoint) (depth : Nat)
  /-- A line closed levels. -/
  | dedent (line : Nat) (popped : Nat) (depth : Nat)
  /-- The input ended while levels were open. -/
  | flush (depth : Nat)
  /-- A stream was closed. -/
  | closing (name : Option String)
  /-- The boundary of an escape region was crossed. -/
  | escape (crossing : Crossing)
  deriving DecidableEq, Repr

/-- A rule as notices show it. -/
def Rule.shown (r : Rule) : String :=
  Text.quoted [r.opening] ++ "..." ++ Text.quoted [r.closing]

namespace Notice

/-- Every indent, dedent and escape region is a trace; ends of streams are reported earlier. -/
def level : Notice → Int
  | indent .. => 3
  | dedent .. => 3
  | flush _ => 2
  | closing _ => 2
  | escape _ => 3

/-- A notice in words. -/
def text : Notice → String
  | indent line pushed depth =>
    let run := Text.quoted pushed
    s!"Indent at line {line}: pushed {run} (depth {depth})"
  | dedent line popped depth => s!"Dedent at line {line}: popped {popped} (depth {depth})"
  | flush depth => s!"End of input: flushing {depth} dedent(s)"
  | closing name => Text.trimEnd ("Closing stream " ++ name.getD "")
  | escape (.entering r) => "Escape: entering " ++ r.shown
  | escape (.leaving r) => "Escape: leaving " ++ r.shown

/-- A notice as a report. -/
def entry (n : Notice) : Log.Entry := ⟨n.level, n.text⟩

end Notice

end Offside
