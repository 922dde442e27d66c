/-
Scanning a text with regard to quotes and brackets.

A quoted stretch runs from a quote character to the next quote character of the same kind.  A
quote character right after a backslash neither opens nor closes a stretch; what stands in front
of the backslash does not matter.

Brackets inside quoted stretches do not count.  The bracket that closes an opening one is found
by counting; the count may pass below zero.
-/
import Diagrams.Text.Basic

namespace Diagrams

/-- Where a scan stands with regard to quotes. -/
structure Quoting where
  /-- The character in front. -/
  before : Option Char := none
  /-- The quote character of the stretch that the scan is in. -/
  quote : Option Char := none
  deriving DecidableEq, Repr

/-- Take one character into account.  The closing quote character already counts as outside. -/
def Quoting.step (isQuote : Char → Bool) (state : Quoting) (c : Char) : Quoting :=
  { before := some c
    quote :=
      if isQuote c && state.before != some '\\' then
        match state.quote with
        | none => some c
        | some quote => if quote = c then none else some quote
      else state.quote }

/-- Whether the scan is outside all quoted stretches. -/
def Quoting.isOutside (state : Quoting) : Bool := state.quote.isNone

/-- A kind of brackets. -/
structure Brackets where
  /-- The opening bracket. -/
  opening : Char := '('
  /-- The closing bracket. -/
  closing : Char := ')'

namespace Brackets

/-- Round brackets. -/
def round : Brackets := {}

/-- Curly brackets. -/
def curly : Brackets := { opening := '\x7b', closing := '\x7d' }

/-- The quote characters that brackets are hidden by. -/
def isQuote (c : Char) : Bool := c == '\x27' || c == '"' || c == '\x60'

/-- The offset of the closing bracket that brings the count of open brackets down to zero, in a
text in front of which `offset` characters lie. -/
def closingFrom (brackets : Brackets) : Quoting → (depth : Int) → (offset : Nat) → Text → Option Nat
  | _, _, _, [] => none
  | state, depth, offset, c :: rest =>
    let next := state.step isQuote c
    if !next.isOutside then brackets.closingFrom next depth (offset + 1) rest
    else if c = brackets.opening then brackets.closingFrom next (depth + 1) (offset + 1) rest
    else if c = brackets.closing then
      if depth - 1 = 0 then some offset
      else brackets.closingFrom next (depth - 1) (offset + 1) rest
    else brackets.closingFrom next depth (offset + 1) rest

/-- The offset of the bracket that closes the one at the given offset. -/
def closing? (brackets : Brackets) (text : Text) (start : Nat) : Option Nat :=
  let before := if start = 0 then none else text[start - 1]?
  brackets.closingFrom { before } 0 start (text.drop start)

/-- For a text that starts with an opening bracket: what stands between it and the bracket that
closes it, and what stands after that. -/
def body? (brackets : Brackets) (text : Text) : Option (Text × Text) :=
  (brackets.closing? text 0).map fun stop => ((text.take stop).drop 1, text.drop (stop + 1))

end Brackets

end Diagrams
