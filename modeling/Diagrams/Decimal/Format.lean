/-
How a double is written: the shortest digits that read back, with a point between them or, for
very large and very small numbers, with a power of ten.
-/
import Diagrams.Decimal.Shortest

namespace Diagrams.Decimal

/-- The decisions of a number format. -/
structure Style where
  /-- What is written for a value that is no number. -/
  nan : String
  /-- What is written for infinity, after the sign. -/
  infinity : String
  /-- Numbers from `10 ^ largest` on are written with a power of ten. -/
  largest : Int := 16
  /-- Numbers below `10 ^ smallest` are written with a power of ten. -/
  smallest : Int := -4
  /-- How many digits the power of ten has at least. -/
  powerDigits : Nat := 2

/-- The format of the figures in messages. -/
def Style.plain : Style := { nan := "nan", infinity := "inf" }

/-- The format of the numbers in a JSON document. -/
def Style.document : Style := { nan := "NaN", infinity := "Infinity" }

/-- A whole number without its final zeros, and how many there were.  The first argument bounds
their count. -/
def withoutZeros : (bound : Nat) → Nat → Nat × Nat
  | 0, n => (n, 0)
  | bound + 1, n =>
    if n ≠ 0 && n % 10 = 0 then
      let (digits, zeros) := withoutZeros bound (n / 10)
      (digits, zeros + 1)
    else (n, 0)

/-- A power of ten with its sign and at least the given number of digits. -/
def powerText (width : Nat) (power : Int) : String :=
  let digits := toString power.natAbs
  let padding := String.ofList (List.replicate (width - digits.length) '0')
  (if power < 0 then "-" else "+") ++ padding ++ digits

/-- The text of a positive decimal number. -/
def text (style : Style) (number : Decimal) : String :=
  let (value, zeros) := withoutZeros (countDigits number.digits) number.digits
  let digits := Nat.toDigits 10 value
  let point : Int := digits.length + (number.exponent + zeros)
  if style.smallest < point && point ≤ style.largest then
    if point ≤ 0 then
      "0." ++ String.ofList (List.replicate (-point).toNat '0' ++ digits)
    else
      let whole := digits.take point.toNat
      let padding := List.replicate (point.toNat - digits.length) '0'
      let fraction := digits.drop point.toNat
      String.ofList (whole ++ padding ++ ['.'] ++ if fraction.isEmpty then ['0'] else fraction)
  else
    let fraction := digits.drop 1
    String.ofList (digits.take 1 ++ if fraction.isEmpty then [] else '.' :: fraction) ++
      "e" ++ powerText style.powerDigits (point - 1)

/-- The text of a double. -/
def ofFloat (style : Style) (x : Float) : String :=
  let bits := x.toBits.toNat
  let size := bits % signBit
  let sign := if bits < signBit then "" else "-"
  if infinityBits < size then style.nan
  else if size = infinityBits then sign ++ style.infinity
  else if size = 0 then sign ++ "0.0"
  else sign ++ text style (Interval.ofBits size).shortest

end Diagrams.Decimal
