/-
The double nearest to a decimal number, ties to the even neighbour.

A positive double is `m · 2 ^ q` with `m < 2 ^ 53` and `-1074 ≤ q`.  Its bit pattern counts the
doubles below it, so that `m + (q + 1074) · 2 ^ 52` is the pattern for every such pair in which
`q` is as small as it can be; a carry out of the rounded `m` then needs no special care.
-/
import Diagrams.Decimal.Basic

namespace Diagrams.Decimal

/-- The whole number nearest to a quotient, a half going to the even neighbour. -/
def roundDiv (numerator denominator : Nat) : Nat :=
  let quotient := numerator / denominator
  let twice := 2 * (numerator % denominator)
  if twice < denominator || (twice = denominator && quotient % 2 = 0) then quotient
  else quotient + 1

/-- The least `q ≥ -1074` for which the quotient is below `2 ^ 53` units of `2 ^ q`. -/
def unitExponent (numerator denominator : Nat) : Int :=
  let guess := (Nat.log2 numerator : Int) - Nat.log2 denominator - 53
  let (up, down) := powerRatio 2 guess
  let exponent :=
    if numerator * down / (denominator * up) < 2 * fractionValues then guess else guess + 1
  max exponent (-1074)

/-- The bit pattern of the double nearest to a positive quotient. -/
def nearestBits (numerator denominator : Nat) : Nat :=
  let q := unitExponent numerator denominator
  let (up, down) := powerRatio 2 q
  min (roundDiv (numerator * down) (denominator * up) + (q + 1074).toNat * fractionValues)
    infinityBits

/-- The double nearest to a decimal number.  Beyond the orders of magnitude that doubles have,
the exact power of ten is not formed. -/
def toFloat (number : Decimal) : Float :=
  let magnitude := countDigits number.digits + number.exponent
  if number.digits = 0 || magnitude < -400 then 0
  else if magnitude > 400 then Float.ofBits (UInt64.ofNat infinityBits)
  else
    let (up, down) := powerRatio 10 number.exponent
    Float.ofBits (UInt64.ofNat (nearestBits (number.digits * up) down))

end Diagrams.Decimal
