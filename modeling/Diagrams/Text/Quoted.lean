/-
The quoted form of a text, as messages show it: on one line, with every character that cannot
be seen written as an escape.
-/
import Diagrams.Text.Basic
import Diagrams.Text.Printable

namespace Diagrams.Text

/-- The digit of a value below sixteen, in lower case. -/
def hexDigit (value : Nat) : Char :=
  if value < 10 then Char.ofNat (0x30 + value) else Char.ofNat (0x61 + (value - 10))

/-- The lowest `width` hexadecimal digits of a number. -/
def hexDigits : (width : Nat) → Nat → Text
  | 0, _ => []
  | width + 1, value => hexDigits width (value / 16) ++ [hexDigit (value % 16)]

/-- The mark put around a text: the apostrophe, unless the text holds one and no double quote. -/
def quoteMark (text : Text) : Char :=
  if text.contains '\x27' && !text.contains '"' then '"' else '\x27'

/-- How one character is written between marks of the given kind. -/
def quotedChar (mark c : Char) : Text :=
  if c = mark || c = '\\' then ['\\', c]
  else if c = '\n' then ['\\', 'n']
  else if c = '\r' then ['\\', 'r']
  else if c = '\t' then ['\\', 't']
  else if isPrintable c then [c]
  else if c.toNat < 0x100 then '\\' :: 'x' :: hexDigits 2 c.toNat
  else if c.toNat < 0x10000 then '\\' :: 'u' :: hexDigits 4 c.toNat
  else '\\' :: 'U' :: hexDigits 8 c.toNat

/-- The quoted form of a text. -/
def quoted (text : Text) : Text :=
  let mark := text.quoteMark
  mark :: (text.flatMap (quotedChar mark) ++ [mark])

end Diagrams.Text
