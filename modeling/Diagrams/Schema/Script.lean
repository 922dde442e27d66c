/-
The outer form of a schema script: statements, comments, and the parts of a bracketed list.

Statements end at every semicolon, also inside quotes and comments.  Comments are removed from
one statement at a time: block comments first, each leaving one space, then line comments.  A
block comment that is not closed is no comment.
-/
import Diagrams.Text.Pieces
import Diagrams.Brackets

namespace Diagrams.Schema

/-- The statements of a script, each with the semicolon that ends it; blank ones are left out. -/
def statements (script : Text) : List Text :=
  ((script.splitWhere (· == ';')).filter fun fragment => !fragment.isBlankText).map
    fun fragment => fragment.trim ++ [';']

/-- Whether a block comment is closed somewhere in the text. -/
def closesComment : Text → Bool
  | '*' :: '/' :: _ => true
  | _ :: rest => closesComment rest
  | [] => false

/-- The text without block comments; the first argument says whether the text starts inside of
one, which is then closed further on. -/
def dropBlockComments : (inside : Bool) → Text → Text
  | _, [] => []
  | true, '*' :: '/' :: rest => ' ' :: dropBlockComments false rest
  | true, _ :: rest => dropBlockComments true rest
  | false, '/' :: '*' :: rest =>
    if closesComment rest then dropBlockComments true rest else '/' :: '*' :: rest
  | false, c :: rest => c :: dropBlockComments false rest

/-- The text without line comments; the first argument says whether the text starts inside of
one. -/
def dropLineComments : (inside : Bool) → Text → Text
  | _, [] => []
  | true, '\n' :: rest => '\n' :: dropLineComments false rest
  | true, _ :: rest => dropLineComments true rest
  | false, '-' :: '-' :: rest => dropLineComments true rest
  | false, c :: rest => c :: dropLineComments false rest

/-- A statement without its comments. -/
def stripComments (statement : Text) : Text :=
  dropLineComments false (dropBlockComments false statement)

/-! ### The parts of a bracketed list -/

/-- Where a scan over a bracketed list stands. -/
structure ListScan where
  /-- Where it stands with regard to quotes. -/
  quoting : Quoting := {}
  /-- How many round brackets are open. -/
  depth : Int := 0
  deriving DecidableEq, Repr

namespace ListScan

/-- The quote characters of a list. -/
def isQuote (c : Char) : Bool := c == '\x27' || c == '"'

/-- Take one character into account. -/
def step (scan : ListScan) (c : Char) : ListScan :=
  let quoting := scan.quoting.step isQuote c
  { quoting
    depth :=
      if !quoting.isOutside then scan.depth
      else if c = '(' then scan.depth + 1
      else if c = ')' then scan.depth - 1
      else scan.depth }

/-- Whether a part ends at this character: a comma outside all quotes and brackets. -/
def isCut (scan : ListScan) (c : Char) : Bool :=
  scan.quoting.isOutside && c == ',' && scan.depth == 0

end ListScan

/-- The parts of a list, without the blanks around them.  The last part is left out if it is
blank. -/
def parts (content : Text) : List Text :=
  let pieces := Text.piecesBy ListScan.step ListScan.isCut {} content
  let last := (pieces.getLast?.getD []).trim
  pieces.dropLast.map Text.trim ++ if last.isEmpty then [] else [last]

end Diagrams.Schema
