/-
White space.  Every reader of this library that skips, trims or cuts at blanks uses the one
class defined here: the characters with the property White_Space, and the four information
separators U+001C to U+001F.
-/
import Diagrams.Text.Ranges

namespace Diagrams

/-- The code points that count as blank. -/
def blankRanges : Ranges :=
  [(0x09, 0x0D), (0x1C, 0x20), (0x85, 0x85), (0xA0, 0xA0), (0x1680, 0x1680), (0x2000, 0x200A),
    (0x2028, 0x2029), (0x202F, 0x202F), (0x205F, 0x205F), (0x3000, 0x3000)]

/-- Whether a character is white space. -/
def isBlank (c : Char) : Bool :=
  blankRanges.holds c

end Diagrams
