/-
The shortest decimal number that reads back as a given double.

A positive double `m · 2 ^ q` is read back from every number in the interval that reaches half
way to its neighbours; the ends belong to it when `m` is even.  On the grid of numbers with a
given count of digits, one of the two grid points around the double lies in the interval if any
does.  So the grids are tried from one digit on, and the first hit is shortest; of two hits the
nearer one is taken, and the even one at equal distance.
-/
import Diagrams.Decimal.Basic

namespace Diagrams.Decimal

/-- The numbers that read back as one double, all in units of `numerator / denominator`. -/
structure Interval where
  /-- The lower end. -/
  low : Nat
  /-- The double itself. -/
  mid : Nat
  /-- The upper end. -/
  high : Nat
  /-- Whether the ends belong to the interval. -/
  closed : Bool
  /-- The power of two that is the unit. -/
  exponent : Int

/-- The interval of a positive finite double, given by its bit pattern without the sign.  At the
least number with a given power of two the neighbour below is only half as far away. -/
def Interval.ofBits (bits : Nat) : Interval :=
  let fraction : Nat := bits % fractionValues
  let power : Nat := bits / fractionValues
  let m := if power = 0 then fraction else fraction + fractionValues
  let q : Int := if power = 0 then -1074 else (power : Int) - 1075
  { low := 4 * m - (if fraction = 0 && 1 < power then 1 else 2)
    mid := 4 * m
    high := 4 * m + 2
    closed := m % 2 = 0
    exponent := q - 2 }

namespace Interval

/-- The number in the interval among the neighbours of its middle on the grid of multiples of
`10 ^ exponent`. -/
def gridPoint? (interval : Interval) (exponent : Int) : Option Nat :=
  let (twoUp, twoDown) := powerRatio 2 interval.exponent
  let (tenUp, tenDown) := powerRatio 10 exponent
  let scale := twoUp * tenDown
  let unit := twoDown * tenUp
  let inside (point : Nat) : Bool :=
    if interval.closed then
      interval.low * scale ≤ point * unit && point * unit ≤ interval.high * scale
    else
      interval.low * scale < point * unit && point * unit < interval.high * scale
  let below := interval.mid * scale / unit
  let twice := 2 * (interval.mid * scale % unit)
  let lowerFirst := twice < unit || (twice = unit && below % 2 = 0)
  if lowerFirst then
    if inside below then some below else if inside (below + 1) then some (below + 1) else none
  else
    if inside (below + 1) then some (below + 1) else if inside below then some below else none

/-- The least power of ten above the middle of the interval. -/
def magnitude (interval : Interval) : Int :=
  let (up, down) := powerRatio 2 interval.exponent
  let whole := interval.mid * up / down
  if whole ≠ 0 then countDigits whole
  else
    -- the middle is at least `2 ^ -1074`, which has 323 zeros after the point
    let zeros := (List.range 330).find? (fun n => down ≤ interval.mid * up * Nat.pow 10 (n + 1))
    0 - ((zeros.getD 0 : Nat) : Int)

/-- The shortest number in the interval.  Seventeen digits always suffice. -/
def shortest (interval : Interval) : Decimal :=
  let magnitude := interval.magnitude
  let hit := (List.range 17).findSome? fun (n : Nat) =>
    let exponent : Int := magnitude - (n + 1)
    (interval.gridPoint? exponent).map fun digits => { digits, exponent : Decimal }
  hit.getD { digits := 0, exponent := 0 }

end Interval

end Diagrams.Decimal
