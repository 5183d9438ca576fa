import JobTrace.Number.Binary64
import JobTrace.Number.Digits

/-!
The shortest decimal that stands for a double.

A decimal stands for a double when it lies in the interval of numbers that round to it.  The
decimals with `g` as their last place form the grid of multiples of `10 ^ g`; going from coarse
to fine grids, the first one with a point in the interval gives the fewest digits.  If any point
of a grid lies in the interval, then so does one of the two grid points around the double
itself, so only these two are tried.
-/

namespace JobTrace

/-- Which of two equally near decimals is taken. -/
inductive Tie where
  /-- The one with an even last digit. -/
  | toEven
  /-- The greater one. -/
  | up
deriving DecidableEq

/-- The number `coefficient * 10 ^ exponent`. -/
structure Decimal where
  /-- The digits, as one number. -/
  coefficient : Nat
  /-- The place of the last digit. -/
  exponent : Int
deriving DecidableEq

namespace Binary64

/-- The interval of numbers that round to a double, in quarters of its last place: the least
    and the greatest.  Just above a power of two the doubles below lie closer. -/
def roundingInterval (significand : Nat) (exponent : Int) : Nat × Nat :=
  let below := if significand = Nat.pow 2 52 ∧ -1074 < exponent then 1 else 2
  (4 * significand - below, 4 * significand + 2)

/-- The point of the grid `10 ^ place` that stands for `significand * 2 ^ exponent`, the nearer
    one if two do.  The ends of the interval count when the significand is even. -/
def onGrid? (tie : Tie) (significand : Nat) (exponent place : Int) : Option Decimal :=
  let (least, greatest) := roundingInterval significand exponent
  let quarter := Nat.pow 2 (exponent - 2).toNat * Nat.pow 10 (-place).toNat
  let step := Nat.pow 2 (2 - exponent).toNat * Nat.pow 10 place.toNat
  let value := 4 * significand * quarter
  let inside (point : Nat) : Bool :=
    if significand % 2 = 0 then
      least * quarter ≤ point * step ∧ point * step ≤ greatest * quarter
    else least * quarter < point * step ∧ point * step < greatest * quarter
  let lower := value / step
  let upper := lower + 1
  match inside lower, inside upper with
  | false, false => none
  | true, false => some ⟨lower, place⟩
  | false, true => some ⟨upper, place⟩
  | true, true =>
    let toLower := value - lower * step
    let toUpper := upper * step - value
    if toLower < toUpper then some ⟨lower, place⟩
    else if toUpper < toLower then some ⟨upper, place⟩
    else match tie with
      | .toEven => some ⟨if lower % 2 = 0 then lower else upper, place⟩
      | .up => some ⟨upper, place⟩

/-- A double written out in full, which every double can be. -/
def exactDecimal (significand : Nat) (exponent : Int) : Decimal :=
  ⟨significand * Nat.pow 2 exponent.toNat * Nat.pow 5 (-exponent).toNat, min exponent 0⟩

/-- A place above the first digit of `significand * 2 ^ exponent`: a number of `b` bits has at
    most `0.30103 * b + 1` decimal digits. -/
def topPlace (significand : Nat) (exponent : Int) : Int :=
  ((Nat.log2 significand : Int) + exponent + 1) * 30103 / 100000 + 2

/-- The decimal with the fewest digits that stands for the magnitude of a double other than
    zero, and of those the nearest.  Seventeen digits always suffice, so the search ends in
    sight of the first digit. -/
def shortest (tie : Tie) (x : Binary64) : Decimal :=
  let top := topPlace x.significand x.exponent
  ((List.range 24).findSome? fun (i : Nat) =>
      onGrid? tie x.significand x.exponent (top - (i : Int))).getD
    (exactDecimal x.significand x.exponent)

end Binary64

end JobTrace
