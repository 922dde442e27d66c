/-
Reading a number from a setting.

Blanks around the number are skipped, its digits may be those of any script, and a low line may
stand between two digits.  The number itself is an optional sign and then either a name for
infinity or for no number at all, or digits with an optional point and an optional power of ten.
-/
import Diagrams.Decimal.Nearest
import Diagrams.Text.Basic
import Diagrams.Text.WordChar

namespace Diagrams.Decimal

/-- A character of a number in ASCII: digits of other scripts become 0 to 9 and blanks of other
kinds become spaces. -/
def toAscii (c : Char) : Char :=
  if c.toNat < 0x80 then c
  else if isBlank c then ' '
  else match digitValue? c with
    | some value => Char.ofNat (0x30 + value)
    | none => c

/-- The blanks that may surround a number once it is in ASCII. -/
def isPadding (c : Char) : Bool := c == ' ' || (9 ≤ c.toNat && c.toNat ≤ 13)

/-- The text without its low lines, if each stands between two digits. -/
def joinDigits? : (before : Option Char) → Text → Option Text
  | _, [] => some []
  | before, '_' :: rest =>
    if before.any Char.isDigit && rest.head?.any Char.isDigit then joinDigits? (some '_') rest
    else none
  | _, c :: rest => (joinDigits? (some c) rest).map (c :: ·)

/-- The value of a run of ASCII digits. -/
def digitsValue (digits : Text) : Nat :=
  digits.foldl (fun value c => 10 * value + (c.toNat - 0x30)) 0

/-- A sign in front of a number: whether it is negative, and what follows. -/
def signed : Text → Bool × Text
  | '-' :: rest => (true, rest)
  | '+' :: rest => (false, rest)
  | text => (false, text)

/-- The power of ten that ends a number; nothing stands for zero. -/
def readPower? : Text → Option Int
  | [] => some 0
  | c :: rest =>
    let (negative, digits) := signed rest
    if (c = 'e' || c = 'E') && !digits.isEmpty && digits.all Char.isDigit then
      some (if negative then -(digitsValue digits : Int) else digitsValue digits)
    else none

/-- A number without sign: digits with an optional point among them, and a power of ten. -/
def readDecimal? (text : Text) : Option Decimal :=
  let whole := text.takeWhile Char.isDigit
  let afterWhole := text.dropWhile Char.isDigit
  let (fraction, afterFraction) := match afterWhole with
    | '.' :: rest => (rest.takeWhile Char.isDigit, rest.dropWhile Char.isDigit)
    | rest => ([], rest)
  if whole.isEmpty && fraction.isEmpty then none
  else
    (readPower? afterFraction).map fun power =>
      { digits := digitsValue (whole ++ fraction), exponent := power - fraction.length }

/-- A double without sign. -/
def readSize? (text : Text) : Option Float :=
  let word := String.ofList (text.map Char.toLower)
  if word = "inf" || word = "infinity" then some (Float.ofBits (UInt64.ofNat infinityBits))
  else if word = "nan" then some (Float.ofBits (UInt64.ofNat nanBits))
  else (readDecimal? text).map toFloat

/-- The double that a text denotes. -/
def readFloat? (text : Text) : Option Float :=
  (joinDigits? none (Text.strip isPadding (text.map toAscii))).bind fun joined =>
    let (negative, size) := signed joined
    (readSize? size).map fun x => if negative then -x else x

end Diagrams.Decimal
