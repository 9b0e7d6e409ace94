/-!
# Decimal numbers

A number as digits and a place for the point, and the two ways to write it: with the point where
it belongs, or after the first digit and with an exponent.

## Main definitions

* `Decimal` — a number.
* `Decimal.trimmed` — the number without zeros at the end of its digits.
* `Decimal.positional`, `Decimal.scientific` — its digits, written in the two ways.
* `Decimal.general` — its digits, written in the way that suits it.
-/

namespace Offside

/-- The number `digits * 10 ^ exponent`. -/
structure Decimal where
  /-- The digits as a whole number. -/
  digits : Nat
  /-- How many places the point is to the right of them. -/
  exponent : Int := 0
  deriving DecidableEq, Repr

namespace Decimal

/-! ### Digits -/

/-- The digits without the zeros at their end, and how many zeros those were. -/
def trimZeros (digits : Nat) : Nat × Nat :=
  if _h : digits ≠ 0 ∧ digits % 10 = 0 then
    let (digits, zeros) := trimZeros (digits / 10)
    (digits, zeros + 1)
  else (digits, 0)
termination_by digits
decreasing_by omega

/-- The number without zeros at the end of its digits. -/
def trimmed (d : Decimal) : Decimal :=
  let (digits, zeros) := trimZeros d.digits
  { digits := digits, exponent := d.exponent + zeros }

/-- The digits one by one; zero has one. -/
def chars (d : Decimal) : List Char := Nat.toDigits 10 d.digits

/-- How many of the digits are before the point.  Zero has one before it. -/
def before (d : Decimal) : Int := if d.digits = 0 then 1 else d.chars.length + d.exponent

/-! ### Written digits -/

/-- Zeros in a row. -/
def zeros (count : Nat) : List Char := List.replicate count '0'

/-- Digits with a point after the first `before` of them, at least `places` digits after the
point, and at least one before it.  A point with nothing after it is left out unless it is to be
kept. -/
def pointed (digits : List Char) (before : Int) (places : Nat) (keepPoint : Bool) : List Char :=
  let whole :=
    if before ≤ 0 then ['0']
    else digits.take before.toNat ++ zeros (before.toNat - digits.length)
  let fraction :=
    if before ≤ 0 then zeros (-before).toNat ++ digits else digits.drop before.toNat
  let fraction := fraction ++ zeros (places - fraction.length)
  whole ++ if fraction = [] ∧ !keepPoint then [] else '.' :: fraction

/-- A number with the point where it belongs. -/
def positional (d : Decimal) (places : Nat) (keepPoint : Bool) : List Char :=
  pointed d.chars d.before places keepPoint

/-- A number with the point after its first digit, and an exponent, which has a sign and at least
two digits. -/
def scientific (d : Decimal) (places : Nat) (keepPoint : Bool) : List Char :=
  let exponent := d.before - 1
  let power := Nat.toDigits 10 exponent.natAbs
  pointed d.chars 1 places keepPoint ++
    'e' :: (if exponent < 0 then '-' else '+') :: zeros (2 - power.length) ++ power

/-- A number with an exponent only if the point is far from the digits: if more than `most` digits
would be before it, or more than three zeros between it and the digits.  Without an exponent
there are at least `places` digits after the point.  If the point is kept, so are zeros at the
end, up to a number of digits. -/
def general (d : Decimal) (digits : Nat) (most : Int) (places : Nat) (keepPoint : Bool) :
    List Char :=
  if d.before ≤ -4 ∨ most < d.before then
    d.scientific (if keepPoint then digits - 1 else 0) keepPoint
  else
    d.positional (max places (if keepPoint then (digits - d.before).toNat else 0)) keepPoint

example : positional { digits := 15, exponent := -1 } 0 false = "1.5".toList := by decide +kernel
example : positional { digits := 15, exponent := 2 } 1 false = "1500.0".toList := by
  decide +kernel
example : positional { digits := 15, exponent := -4 } 5 false = "0.00150".toList := by
  decide +kernel
example : positional { digits := 15 } 0 true = "15.".toList := by decide +kernel
example : scientific { digits := 25, exponent := -6 } 0 false = "2.5e-05".toList := by
  decide +kernel

end Decimal

end Offside
