import Offside.Value

/-!
# Escape regions

Inside an **escape region** indentation means nothing: a parenthesised expression may run over
several lines, and a comment may stand anywhere.  A region runs from the opening character of a
rule through the next later occurrence of the rule's closing character.  Regions do not nest:
while one is open, the opening characters of all rules are ordinary text.  If several rules
share an opening character, the one registered first applies.

## Main definitions

* `Rule` — the two characters that delimit a region.
* `Tracker` — the registered rules and the one whose region is open.
* `Tracker.escapes`, `Tracker.observe` — whether the next character lies in a region, and the
  tracker after it.
-/

namespace Offside

/-- A kind of escape region. -/
structure Rule where
  /-- The character that starts a region. -/
  opening : CodePoint
  /-- The character that ends it, and still belongs to it. -/
  closing : CodePoint
  deriving DecidableEq, Repr

/-- A rule from two values, each of which must be a single character. -/
def Rule.ofValues (opening closing : Value) : Except NotSingle Rule :=
  match opening.single .opening with
  | .error e => .error e
  | .ok o => match closing.single .closing with
    | .error e => .error e
    | .ok c => .ok ⟨o, c⟩

/-- The escape rules, and the one whose region is open. -/
structure Tracker where
  /-- The registered rules, in the order of registration. -/
  rules : List Rule := []
  /-- The rule whose region is open. -/
  active : Option Rule := none
  deriving DecidableEq, Repr

/-- A region was entered or left. -/
inductive Crossing where
  | entering (rule : Rule)
  | leaving (rule : Rule)
  deriving DecidableEq, Repr

namespace Tracker

/-- Registers one more rule. -/
def add (t : Tracker) (r : Rule) : Tracker := { t with rules := t.rules ++ [r] }

/-- The rule that a character opens. -/
def opened (t : Tracker) (c : CodePoint) : Option Rule := t.rules.find? fun r => r.opening = c

/-- A character is escaped if a region is open before it or opens with it. -/
def escapes (t : Tracker) (c : CodePoint) : Bool := t.active.isSome || (t.opened c).isSome

/-- The tracker after a character.  A closing character never opens a region as well. -/
def observe (t : Tracker) (c : CodePoint) : Tracker :=
  match t.active with
  | some r => if c = r.closing then { t with active := none } else t
  | none => { t with active := t.opened c }

/-- The crossing that a character makes. -/
def crossing (t : Tracker) (c : CodePoint) : List Crossing :=
  match t.active with
  | some r => if c = r.closing then [.leaving r] else []
  | none => ((t.opened c).map Crossing.entering).toList

/-- Observing characters registers nothing. -/
@[simp] theorem rules_observe (t : Tracker) (c : CodePoint) : (t.observe c).rules = t.rules := by
  simp only [observe]
  split
  · split <;> rfl
  · rfl

/-- For each character of a text whether it is escaped, and the tracker after the text. -/
def label (t : Tracker) : List CodePoint → List Bool × Tracker
  | [] => ([], t)
  | c :: rest =>
    let (marks, after) := (t.observe c).label rest
    (t.escapes c :: marks, after)

/-- The crossings that a text makes. -/
def crossings (t : Tracker) : List CodePoint → List Crossing
  | [] => []
  | c :: rest => t.crossing c ++ (t.observe c).crossings rest

end Tracker

end Offside
