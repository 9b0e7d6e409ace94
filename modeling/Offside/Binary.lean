import Offside.Decimal

/-!
# Binary numbers

Numbers with a point are held in 64 bits: 53 significant binary digits and an exponent.  Every
finite one is a multiple of the least of them, which is two to the power of -1074, so it is given
by a sign and a count of that **unit**, and all about it is exact arithmetic on whole numbers.

## Main definitions

* `roundRatio` — a ratio of whole numbers, rounded to a whole number.
* `Binary` — a number.
* `Binary.ofRatio`, `Binary.ofDecimal` — the number next to one that is given exactly.
* `Binary.toPlaces`, `Binary.toDigits` — a number rounded to decimal places or to digits.
* `Binary.shortest` — the fewest digits that stand for a number.
* `Binary.shown` — its form.

## Main results

* `roundRatio_near` — rounding moves a ratio by a half at most.
-/

namespace Offside

/-! ### Rounding -/

/-- A ratio rounded to the next whole number; a half goes to the even one. -/
def roundRatio (numerator denominator : Nat) : Nat :=
  let quotient := numerator / denominator
  let rest := numerator % denominator
  if 2 * rest < denominator ∨ 2 * rest = denominator ∧ quotient % 2 = 0 then quotient
  else quotient + 1

theorem roundRatio_near (numerator denominator : Nat) (h : 0 < denominator) :
    2 * (roundRatio numerator denominator * denominator) ≤ 2 * numerator + denominator ∧
      2 * numerator ≤ 2 * (roundRatio numerator denominator * denominator) + denominator := by
  have hdiv := Nat.div_add_mod numerator denominator
  have hmod := Nat.mod_lt numerator h
  rw [Nat.mul_comm] at hdiv
  unfold roundRatio
  simp only
  split
  · omega
  · rw [Nat.add_mul, Nat.one_mul]
    omega

example : [roundRatio 5 2, roundRatio 7 2, roundRatio 8 3] = [2, 4, 3] := by decide

/-! ### Numbers -/

/-- A number of 64 bits. -/
inductive Binary where
  /-- A finite number: its sign, and how many units it is. -/
  | finite (negative : Bool) (units : Nat)
  /-- More than every finite number, or less. -/
  | infinite (negative : Bool)
  /-- What stands for a number where there is none. -/
  | undefined
  deriving DecidableEq, Repr

namespace Binary

/-- How many units one is. -/
def one : Nat := Nat.pow 2 1074

/-- The first power of two that is too great for a finite number. -/
def limit : Nat := Nat.pow 2 1024

/-- How many units a ratio is, rounded to 53 binary digits. -/
def unitsOfRatio (numerator denominator : Nat) : Nat :=
  let scaled := numerator * one
  let step := Nat.pow 2 ((scaled / denominator).log2 + 1 - 53)
  roundRatio scaled (denominator * step) * step

/-- The number next to a ratio; of two that are equally near, the one whose last binary digit is
zero. -/
def ofRatio (negative : Bool) (numerator denominator : Nat) : Binary :=
  let units := unitsOfRatio numerator denominator
  if units < limit * one then finite negative units else infinite negative

/-- The number next to a decimal one.  Where the decimal point is far beyond the digits of any
finite number, no power of ten is computed. -/
def ofDecimal (negative : Bool) (d : Decimal) : Binary :=
  if d.digits = 0 ∨ d.exponent + d.digits.log2 / 3 + 2 ≤ -324 then finite negative 0
  else if 310 ≤ d.exponent then infinite negative
  else ofRatio negative (d.digits * Nat.pow 10 d.exponent.toNat) (Nat.pow 10 (-d.exponent).toNat)

/-- The number next to a whole number. -/
def ofInt (n : Int) : Binary := ofRatio (n < 0) n.natAbs 1

/-- A number times a hundred. -/
def hundredfold : Binary → Binary
  | finite negative units => ofRatio negative (units * 100) one
  | b => b

/-- Whether there is a minus sign before a number. -/
def negative : Binary → Bool
  | finite negative _ => negative
  | infinite negative => negative
  | undefined => false

/-- Whether a number is zero. -/
def isZero : Binary → Bool
  | finite _ units => units = 0
  | _ => false

/-! ### Whole numbers -/

/-- The greatest whole number that is not above a number.  An infinite one counts as the limit
of the finite ones, and what is no number is not above any. -/
def floor : Binary → Int
  | finite negative units => (if negative then -(units : Int) else units).fdiv one
  | infinite negative => if negative then -limit else limit
  | undefined => -limit

/-- The least whole number that is not below a number. -/
def ceil : Binary → Int
  | finite negative units => -(if negative then (units : Int) else -units).fdiv one
  | b => b.floor

/-- The number, if it is whole. -/
def whole? (b : Binary) : Option Int := if b.floor = b.ceil then some b.floor else none

/-! ### Decimal digits -/

/-- A count of units times a power of ten, as a ratio. -/
def scaled (units : Nat) (power : Int) : Nat × Nat :=
  (units * Nat.pow 10 power.toNat, one * Nat.pow 10 (-power).toNat)

/-- A count of units rounded to decimal places. -/
def toPlaces (units places : Nat) : Decimal :=
  let (numerator, denominator) := scaled units places
  Decimal.trimmed { digits := roundRatio numerator denominator, exponent := -places }

/-- The least power of ten that is greater than a count of units, which is not zero. -/
def power (units : Nat) : Int :=
  if one ≤ units then (Nat.toDigits 10 (units / one)).length
  else
    let below := (Nat.toDigits 10 (one / units)).length
    if one = units * Nat.pow 10 (below - 1) then 2 - below else 1 - below

/-- A count of units rounded to a number of digits. -/
def toDigits (units digits : Nat) : Decimal :=
  if units = 0 then { digits := 0 }
  else
    let places := digits - power units
    let (numerator, denominator) := scaled units places
    Decimal.trimmed { digits := roundRatio numerator denominator, exponent := -places }

/-- Whether a decimal number stands for a count of units. -/
def readsBack (units : Nat) (d : Decimal) : Bool :=
  unitsOfRatio (d.digits * Nat.pow 10 d.exponent.toNat) (Nat.pow 10 (-d.exponent).toNat) = units

/-- Of the decimal numbers with some digits that stand for a count of units, the nearest; of two
that are equally near, the even one. -/
def nearest? (units digits : Nat) : Option Decimal :=
  let places := digits - power units
  let (numerator, denominator) := scaled units places
  let candidate (n : Nat) : Decimal := { digits := n, exponent := -places }
  let below := numerator / denominator
  let near := roundRatio numerator denominator
  let far := if near = below then below + 1 else below
  [near, far].map candidate |>.find? (readsBack units)

/-- The decimal number with the fewest digits that stands for a count of units.  Seventeen are
always enough. -/
def shortest (units : Nat) : Decimal :=
  if units = 0 then { digits := 0 }
  else
    let found := (List.range' 1 16).findSome? (nearest? units)
    (found.getD (toDigits units 17)).trimmed

/-! ### The form of a number -/

/-- A count of units in its one form: with as few digits as possible, and an exponent if more
than sixteen digits would be before the point. -/
def shownUnits (units : Nat) : List Char := (shortest units).general 0 16 1 false

/-- A number without its sign. -/
def shownSize : Binary → List Char
  | finite _ units => shownUnits units
  | infinite _ => "inf".toList
  | undefined => "nan".toList

/-- A number in its one form. -/
def shown (b : Binary) : String :=
  String.ofList (if b.negative then '-' :: b.shownSize else b.shownSize)

example : (ofDecimal false { digits := 1500, exponent := -3 }).shown = "1.5" := by decide +kernel
example : (ofDecimal false { digits := 1, exponent := 16 }).shown = "1e+16" := by decide +kernel
example : (ofDecimal true { digits := 25, exponent := -6 }).shown = "-2.5e-05" := by
  decide +kernel
example : (ofDecimal false { digits := 30000000000000004, exponent := -17 }).shown =
    "0.30000000000000004" := by decide +kernel
example : (ofDecimal true { digits := 0 }).shown = "-0.0" := by decide +kernel
example : (ofDecimal false { digits := 5, exponent := -324 }).shown = "5e-324" := by
  decide +kernel
example : (ofDecimal false { digits := 18, exponent := 307 }).shown = "inf" := by decide +kernel

end Binary

end Offside
