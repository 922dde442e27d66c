/-
Patterns over texts.

A pattern is data: it is built from single characters by sequence, ordered choice and
repetition, it can note which stretch of the text a part of it covered, and it can look at the
neighbourhood of a place.  `Diagrams.Pattern.Matching` says how a pattern is matched; here are
its form and the abbreviations in which the grammars of this library are written.

The parameter `σ` names the stretches a pattern can note.  Each grammar has a type of its own
for them.
-/
import Diagrams.Text.Basic
import Diagrams.Text.Capitals
import Diagrams.Text.WordChar

namespace Diagrams

/-- Whether a repetition tries to go on first or to stop first. -/
inductive Greed
  | greedy
  | lazy
  deriving DecidableEq, Repr

/-- A pattern whose noted stretches are named by `σ`. -/
inductive Pattern (σ : Type)
  /-- Covers nothing. -/
  | empty
  /-- Covers one character that passes the test. -/
  | one (accepts : Char → Bool)
  /-- Covers what the first part and then the second part cover. -/
  | seq (first second : Pattern σ)
  /-- Covers what the first choice covers, or else what the second covers. -/
  | alt (first second : Pattern σ)
  /-- Covers any number of characters that pass the test. -/
  | many (greed : Greed) (accepts : Char → Bool)
  /-- Covers the body any number of times, more often before less often.  The body never covers
  an empty stretch. -/
  | star (body : Pattern σ)
  /-- Covers what the body covers and notes the stretch under the name. -/
  | noted (slot : σ) (body : Pattern σ)
  /-- Covers nothing, and holds where the body does not match. -/
  | notAhead (body : Pattern σ)
  /-- Covers nothing, and holds unless the character in front passes the test. -/
  | notBehind (rejects : Char → Bool)
  /-- Covers nothing, and holds between a name character and something else. -/
  | wordEdge
  /-- Covers nothing, and holds at the start of the text and after a line feed. -/
  | lineStart
  /-- Covers nothing, and holds at the end of the text and in front of a line feed that ends
  it. -/
  | finish

namespace Pattern

variable {σ : Type}

/-- The parts one after the other. -/
def all : List (Pattern σ) → Pattern σ
  | [] => empty
  | [p] => p
  | p :: q :: rest => seq p (all (q :: rest))

/-- The first of the choices that leads to a match. -/
def oneOf : List (Pattern σ) → Pattern σ
  | [] => notAhead empty
  | [p] => p
  | p :: q :: rest => alt p (oneOf (q :: rest))

/-- The body if it leads to a match, else nothing. -/
def opt (body : Pattern σ) : Pattern σ := alt body empty

/-- Nothing if that leads to a match, else the body. -/
def lazyOpt (body : Pattern σ) : Pattern σ := alt empty body

/-- Up to `n` times the body, rather less often. -/
def lazyUpTo (body : Pattern σ) : Nat → Pattern σ
  | 0 => empty
  | n + 1 => lazyOpt (seq body (lazyUpTo body n))

/-- As many characters that pass the test as lead to a match, at least one. -/
def atLeastOne (accepts : Char → Bool) : Pattern σ := seq (one accepts) (many .greedy accepts)

/-- As few characters that pass the test as lead to a match, at least one. -/
def lazyAtLeastOne (accepts : Char → Bool) : Pattern σ := seq (one accepts) (many .lazy accepts)

/-- One given character. -/
def lit (c : Char) : Pattern σ := one (· == c)

/-- A given text, letter for letter. -/
def exactly (text : String) : Pattern σ := all (text.toList.map lit)

/-- A given text, its letters in either case. -/
def keyword (text : String) : Pattern σ := all (text.toList.map fun c => one (matchesLetter c))

/-- A name. -/
def name : Pattern σ := atLeastOne isWordChar

/-- Any number of blanks. -/
def spaces : Pattern σ := many .greedy isBlank

/-- At least one blank. -/
def gap : Pattern σ := atLeastOne isBlank

end Pattern

end Diagrams
