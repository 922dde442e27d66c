/-
Letters of words that are read without regard to case.

Two rules are needed.  A pattern compares letter by letter (`matchesLetter`); a table of
keywords compares the capitals that a whole word stands for (`capitals`), where a sharp s or a
ligature stands for two letters or more.
-/
import Diagrams.Text.Basic

namespace Diagrams

/-- Whether a character is the ASCII letter `letter` in one of its cases.  The sign for kelvin
is a k, the long s is an s, and the i with and without dot are both an i. -/
def matchesLetter (letter c : Char) : Bool :=
  c.toLower == letter.toLower ||
    match letter.toLower with
    | 'k' => c == '\u212a'
    | 's' => c == '\u017f'
    | 'i' => c == '\u0130' || c == '\u0131'
    | _ => false

/-- Whether a character is an ASCII letter in one of its cases. -/
def isLatinLetter (c : Char) : Bool :=
  c.isAlpha || c == '\u212a' || c == '\u017f' || c == '\u0130' || c == '\u0131'

/-- The capitals that a character stands for, where they are all ASCII; any other character is
left as it is. -/
def capitalsOf (c : Char) : Text :=
  match c with
  | 'ß' => ['S', 'S']
  | 'ı' => ['I']
  | 'ſ' => ['S']
  | 'ﬀ' => ['F', 'F']
  | 'ﬁ' => ['F', 'I']
  | 'ﬂ' => ['F', 'L']
  | 'ﬃ' => ['F', 'F', 'I']
  | 'ﬄ' => ['F', 'F', 'L']
  | 'ﬅ' => ['S', 'T']
  | 'ﬆ' => ['S', 'T']
  | c => [c.toUpper]

/-- The capitals that a word stands for. -/
def Text.capitals (word : Text) : Text :=
  word.flatMap capitalsOf

end Diagrams
