/-
Spellings of types: lists of supertypes, type arguments, and the normal form in which equal types
are spelled equally.
-/
import Diagrams.Text.Pieces

namespace Diagrams.Code

/-- A type without its arguments: a spelling that ends with a closing angle bracket is cut at its
first opening one. -/
def withoutArguments (type : Text) : Text :=
  let bare := type.trim
  if bare.getLast? = some '>' && bare.contains '<' then
    Text.trim (bare.takeWhile (· != '<'))
  else bare

/-- The count of open angle brackets after one more character. -/
def angleDepth (depth : Int) (c : Char) : Int :=
  if c = '<' then depth + 1 else if c = '>' then depth - 1 else depth

/-- The names in a list of types with commas, without their arguments; empty ones are left out.
Commas between angle brackets belong to the arguments. -/
def typeList (text : Text) : List Text :=
  let pieces := Text.piecesBy angleDepth (fun depth c => c == ',' && depth == 0) 0 text
  (pieces.map withoutArguments).filter fun name => !name.isEmpty

/-- The characters in a type that need no blanks around them. -/
def isTypePunctuation (c : Char) : Bool :=
  c == '<' || c == '>' || c == '[' || c == ']' || c == ','

/-- Punctuation stands close to both its neighbours. -/
def isCloseInType (left right : Char) : Bool := isTypePunctuation left || isTypePunctuation right

/-- A type in its normal spelling: no blanks but one after each comma, and one between two
words. -/
def normalizeType (type : Text) : Text :=
  (type.respaced isCloseInType).flatMap fun c => if c = ',' then [',', ' '] else [c]

end Diagrams.Code
