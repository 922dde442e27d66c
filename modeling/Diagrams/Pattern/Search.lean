/-
Looking for a pattern in a text: at a place, at the first place that matches, and at all places
in turn, where a match starts no earlier than the end of the one in front of it.
-/
import Diagrams.Pattern.Matching

namespace Diagrams

/-- A stretch of text that a pattern covers. -/
structure Match (σ : Type) where
  /-- The place where it starts. -/
  first : Place σ
  /-- The place right after it, with the noted stretches. -/
  last : Place σ

namespace Match

variable {σ : Type} [DecidableEq σ]

/-- The stretch noted under a name, if the match went through it. -/
def text? (found : Match σ) (slot : σ) : Option Text :=
  (found.last.notes.find? (·.1 = slot)).map (·.2.text)

/-- The stretch noted under a name that every match goes through. -/
def text (found : Match σ) (slot : σ) : Text := (found.text? slot).getD []

/-- What stands after the match. -/
def rest (found : Match σ) : Text := found.last.rest

/-- How many characters the match covers. -/
def length (found : Match σ) : Nat := found.last.offset - found.first.offset

end Match

namespace Pattern

variable {σ : Type}

/-- The best match that starts at a place. -/
def matchAt? (p : Pattern σ) (place : Place σ) : Option (Match σ) :=
  (p.run place some).map fun last => { first := place, last := last }

/-- The best match that starts at the front of a text. -/
def matchStart? (p : Pattern σ) (text : Text) : Option (Match σ) :=
  p.matchAt? (.start text)

/-- The first match in the text `rest`, in front of which `offset` characters lie. -/
def findFrom? (p : Pattern σ) : (before : Option Char) → (offset : Nat) → (rest : Text) →
    Option (Match σ)
  | before, offset, [] => p.matchAt? { before, offset, rest := [] }
  | before, offset, c :: rest =>
    match p.matchAt? { before, offset, rest := c :: rest } with
    | some found => some found
    | none => findFrom? p (some c) (offset + 1) rest

/-- The first match in a text. -/
def find? (p : Pattern σ) (text : Text) : Option (Match σ) := p.findFrom? none 0 text

/-- Whether a pattern matches somewhere in a text. -/
def occursIn (p : Pattern σ) (text : Text) : Bool := (p.find? text).isSome

/-- All matches in the text `rest` after its first `skip` characters. -/
def findAllFrom (p : Pattern σ) : (skip : Nat) → (before : Option Char) → (offset : Nat) →
    (rest : Text) → List (Match σ)
  | _, _, _, [] => []
  | skip + 1, _, offset, c :: rest => findAllFrom p skip (some c) (offset + 1) rest
  | 0, before, offset, c :: rest =>
    match p.matchAt? { before, offset, rest := c :: rest } with
    | some found => found :: findAllFrom p (found.length - 1) (some c) (offset + 1) rest
    | none => findAllFrom p 0 (some c) (offset + 1) rest

/-- All matches in a text, from left to right, for a pattern that covers at least one
character. -/
def findAll (p : Pattern σ) (text : Text) : List (Match σ) := p.findAllFrom 0 none 0 text

/-- The text `rest` with the stretches of the matches replaced; `offset` characters lie in front
of it. -/
def replaceMatches (replacement : Text) : (offset : Nat) → (rest : Text) → List (Match σ) → Text
  | _, rest, [] => rest
  | offset, rest, found :: others =>
    rest.take (found.first.offset - offset) ++ replacement ++
      replaceMatches replacement found.last.offset found.last.rest others

/-- The text with every match replaced. -/
def replaceAll (p : Pattern σ) (replacement text : Text) : Text :=
  replaceMatches replacement 0 text (p.findAll text)

end Pattern

end Diagrams
