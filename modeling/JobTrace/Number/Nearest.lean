import JobTrace.Number.Binary64
import JobTrace.Number.Digits

/-!
The double nearest to a decimal number.

Everything is computed with natural numbers: the decimal becomes a quotient, the quotient is
scaled by the power of two that leaves fifty-three bits (or fewer at the least exponent), and the
scaled quotient is rounded once, a tie going to the even neighbour.  A magnitude that rounds
beyond the largest double has no nearest one; a tiny magnitude rounds to a zero of its sign.
-/

namespace JobTrace

/-- The integer nearest to `num / den`; halfway, the even one. -/
def roundHalfEven (num den : Nat) : Nat :=
  let q := num / den
  let r := num % den
  if 2 * r < den then q
  else if den < 2 * r then q + 1
  else q + q % 2

namespace Binary64

/-- `num / den` divided by `2 ^ exponent`, again as a quotient. -/
def scaled (num den : Nat) (exponent : Int) : Nat × Nat :=
  (num * Nat.pow 2 (-exponent).toNat, den * Nat.pow 2 exponent.toNat)

/-- The exponent at which `num / den` has a significand of fifty-three bits, or the least
    exponent when that is greater. -/
def exponentFor (num den : Nat) : Int :=
  let low : Int := (Nat.log2 num : Int) - Nat.log2 den - 53
  let (n, d) := scaled num den low
  max (if n / d < Nat.pow 2 53 then low else low + 1) (-1074)

def ofQuotient? (negative : Bool) (num den : Nat) : Option Binary64 :=
  let exponent := exponentFor num den
  let (n, d) := scaled num den exponent
  let significand := roundHalfEven n d
  if significand = Nat.pow 2 53 then ofParts? negative (Nat.pow 2 52) (exponent + 1)
  else ofParts? negative significand exponent

/-- The double nearest to `coefficient * 10 ^ exponent`.  Far outside the range of doubles the
    answer is known from the number of digits, so no large power is computed.

    That numerals are rounded correctly is an assumption about the reader of records: one that only
    approximates may arrive at a neighbour of this double.  No result about records, stores or
    topics depends on which of them it is. -/
def ofDecimal? (negative : Bool) (coefficient : Nat) (exponent : Int) : Option Binary64 :=
  let magnitude : Int := (Digits.ofNat coefficient).length + exponent
  if coefficient = 0 ∨ magnitude < -400 then some (zero negative)
  else if 400 < magnitude then none
  else
    ofQuotient? negative (coefficient * Nat.pow 10 exponent.toNat)
      (Nat.pow 10 (-exponent).toNat)

/-- The double nearest to a natural number below `2 ^ 64`. -/
def ofUInt64 (n : UInt64) : Binary64 := (ofDecimal? false n.toNat 0).getD default

end Binary64

end JobTrace
