/-
Sets of code points as lists of ranges, the form in which a character property is tabulated.
-/

namespace Diagrams

/-- A set of code points: the pairs are ranges, both ends included, in increasing order. -/
abbrev Ranges := List (Nat × Nat)

namespace Ranges

/-- Whether one of the ranges holds the code point. -/
def contains (ranges : Ranges) (code : Nat) : Bool :=
  ranges.any fun range => range.1 ≤ code && code ≤ range.2

/-- Whether one of the ranges holds the character. -/
def holds (ranges : Ranges) (c : Char) : Bool :=
  ranges.contains c.toNat

theorem contains_iff {ranges : Ranges} {code : Nat} :
    ranges.contains code = true ↔ ∃ range ∈ ranges, range.1 ≤ code ∧ code ≤ range.2 := by
  simp [contains]

end Ranges

end Diagrams
