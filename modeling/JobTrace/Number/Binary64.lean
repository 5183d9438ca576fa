/-!
Finite double-precision numbers.

A record may hold fractional numbers, which are kept in double precision.  The type below holds
exactly the finite doubles: a sign and a significand times a power of two, in the one normal
form that the format admits.  Both zeros are there, infinities and not-a-number are not: JSON
cannot spell them, so no record holds one.  A topic that is made by hand or read from YAML could add
one to a record, and it is assumed that none does.
-/

namespace JobTrace

/-- The normal form of a finite double: below the least exponent a significand is not shifted
    further, above it the leading bit is set. -/
def Binary64.Normal (significand : Nat) (exponent : Int) : Prop :=
  significand < Nat.pow 2 53 ∧ -1074 ≤ exponent ∧ exponent ≤ 971 ∧
    (Nat.pow 2 52 ≤ significand ∨ exponent = -1074)

instance (significand : Nat) (exponent : Int) :
    Decidable (Binary64.Normal significand exponent) := by
  unfold Binary64.Normal
  infer_instance

/-- A finite double: `significand * 2 ^ exponent`, negated when `negative`. -/
structure Binary64 where
  /-- The sign, which zero has as well. -/
  negative : Bool
  /-- The magnitude in units of `2 ^ exponent`. -/
  significand : Nat
  /-- The binary exponent. -/
  exponent : Int
  /-- There is one such triple for each finite double. -/
  normal : Binary64.Normal significand exponent
deriving DecidableEq

namespace Binary64

def zero (negative : Bool) : Binary64 := ⟨negative, 0, -1074, by decide⟩

def isZero (x : Binary64) : Bool := x.significand = 0

/-- The double of these parts, when they are in normal form. -/
def ofParts? (negative : Bool) (significand : Nat) (exponent : Int) : Option Binary64 :=
  if h : Normal significand exponent then some ⟨negative, significand, exponent, h⟩ else none

/-- The integer part: the number without its fraction, so rounded toward zero. -/
def truncate (x : Binary64) : Int :=
  let magnitude : Nat :=
    if 0 ≤ x.exponent then x.significand * Nat.pow 2 x.exponent.toNat
    else x.significand / Nat.pow 2 (-x.exponent).toNat
  if x.negative then -magnitude else magnitude

/-- The integer part as a 64-bit integer; beyond the range, the nearest end of it. -/
def toInt64 (x : Binary64) : Int64 := Int64.ofIntClamp x.truncate

instance : Inhabited Binary64 := ⟨zero false⟩

end Binary64

end JobTrace
