/-
Decimal numbers `digits · 10 ^ exponent`, the quotients of natural numbers by which they are
compared with doubles, and the bit patterns of doubles.
-/

namespace Diagrams

/-- The decimal number `digits · 10 ^ exponent`. -/
structure Decimal where
  /-- The digits, read as a whole number. -/
  digits : Nat
  /-- The power of ten of the last digit. -/
  exponent : Int
  deriving DecidableEq, Repr

namespace Decimal

/-- How many decimal digits a number has; zero has none. -/
def countDigits (n : Nat) : Nat := if n = 0 then 0 else (Nat.toDigits 10 n).length

/-- The factors `(up, down)` with `base ^ exponent = up / down`, one of them being 1. -/
def powerRatio (base : Nat) (exponent : Int) : Nat × Nat :=
  (base.pow exponent.toNat, base.pow (-exponent).toNat)

/-! ### The bit pattern of a double -/

/-- The fraction of a double has 52 bits; this is the number of its values. -/
def fractionValues : Nat := 0x10000000000000

/-- The bit pattern of infinity. -/
def infinityBits : Nat := 0x7FF0000000000000

/-- The bit pattern of a value that is no number. -/
def nanBits : Nat := 0x7FF8000000000000

/-- The bit of the sign. -/
def signBit : Nat := 0x8000000000000000

end Decimal

end Diagrams
