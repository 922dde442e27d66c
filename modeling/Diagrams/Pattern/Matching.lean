/-
Matching a pattern.

A match grows from a place in the text.  `Place` holds the character in front of the place, the
text after it, its offset and the stretches noted so far, latest first.  `Pattern.run` follows
a pattern from a place and hands each place it can reach, best first, to a continuation, until
one is accepted; this is ordered choice with backtracking, so the answer is the first success in
the order of preference.

`Pattern.reached` lists those places outright.  The main statement is `run_eq_findSome?`: running
a pattern is looking for the first accepted place in that list.
-/
import Diagrams.Pattern.Basic

namespace Diagrams

/-- A stretch of text: where it starts and how long it is. -/
structure Stretch where
  /-- The text from the start of the stretch to the end of the whole text. -/
  onward : Text
  /-- How many characters belong to the stretch. -/
  length : Nat

/-- The characters of a stretch. -/
def Stretch.text (stretch : Stretch) : Text := stretch.onward.take stretch.length

/-- How far a match has come. -/
structure Place (σ : Type) where
  /-- The character in front, unless this is the start of the text. -/
  before : Option Char
  /-- What is left of the text. -/
  rest : Text
  /-- How many characters lie in front. -/
  offset : Nat
  /-- The stretches noted on the way, latest first. -/
  notes : List (σ × Stretch) := []

namespace Place

variable {σ : Type}

/-- The start of a text. -/
def start (text : Text) : Place σ := { before := none, rest := text, offset := 0 }

/-- One character further on, if there is one that passes the test. -/
def step? (accepts : Char → Bool) (place : Place σ) : Option (Place σ) :=
  match place.rest with
  | [] => none
  | c :: rest =>
    if accepts c then
      some { place with before := some c, rest := rest, offset := place.offset + 1 }
    else none

/-- The places reached from `place` over characters that pass the test, farthest first, in front
of the places in `nearer`.  The first argument is the text that lies ahead. -/
def reachAhead (accepts : Char → Bool) : Text → Place σ → List (Place σ) → List (Place σ)
  | [], place, nearer => place :: nearer
  | c :: rest, place, nearer =>
    if accepts c then
      reachAhead accepts rest
        { place with before := some c, rest := rest, offset := place.offset + 1 }
        (place :: nearer)
    else place :: nearer

/-- All places reached over characters that pass the test, in the order of preference. -/
def reach (greed : Greed) (accepts : Char → Bool) (place : Place σ) : List (Place σ) :=
  let farthestFirst := reachAhead accepts place.rest place []
  match greed with
  | .greedy => farthestFirst
  | .lazy => farthestFirst.reverse

/-- The place with one more stretch noted, which runs from `start` to here. -/
def note (slot : σ) (start place : Place σ) : Place σ :=
  { place with
    notes := (slot, { onward := start.rest, length := place.offset - start.offset }) ::
      place.notes }

/-- Whether the character in front passes the test. -/
def follows (test : Char → Bool) (place : Place σ) : Bool := place.before.any test

/-- Whether the next character passes the test. -/
def precedes (test : Char → Bool) (place : Place σ) : Bool := place.rest.head?.any test

/-- Whether exactly one of the neighbours is a name character. -/
def atWordEdge (place : Place σ) : Bool :=
  place.follows isWordChar != place.precedes isWordChar

/-- Whether a line starts here. -/
def atLineStart (place : Place σ) : Bool :=
  match place.before with
  | none => true
  | some c => c == '\n'

/-- Whether nothing is left, or one line feed that ends the text. -/
def atFinish (place : Place σ) : Bool := place.rest == [] || place.rest == ['\n']

end Place

namespace Pattern

variable {σ : Type}

/-- What follows when a pattern has led to a place. -/
abbrev Continuation (σ : Type) := Place σ → Option (Place σ)

/-- Continue from here if the condition holds. -/
def guarded (holds : Bool) (place : Place σ) (next : Continuation σ) : Option (Place σ) :=
  if holds then next place else none

/-- Repeat a step as often as leads to success, more often first.  Each step covers at least one
character, so the text that lies ahead bounds the number of steps. -/
def iterate (step : Place σ → Continuation σ → Option (Place σ)) :
    Text → Place σ → Continuation σ → Option (Place σ)
  | [], place, next => next place
  | _ :: ahead, place, next =>
    match step place fun reached => iterate step ahead reached next with
    | some found => some found
    | none => next place

/-- Follow the pattern from a place; the answer is that of the continuation at the first place,
in the order of preference, where it has one. -/
def run : Pattern σ → Place σ → Continuation σ → Option (Place σ)
  | empty, place, next => next place
  | one accepts, place, next =>
    match place.step? accepts with
    | some reached => next reached
    | none => none
  | seq first second, place, next => first.run place fun reached => second.run reached next
  | alt first second, place, next =>
    match first.run place next with
    | some found => some found
    | none => second.run place next
  | many greed accepts, place, next => (place.reach greed accepts).findSome? next
  | star body, place, next =>
    iterate (fun here after => body.run here after) place.rest place next
  | noted slot body, place, next =>
      body.run place fun reached => next (Place.note slot place reached)
  | notAhead body, place, next => guarded (body.run place some).isNone place next
  | notBehind rejects, place, next => guarded (!place.follows rejects) place next
  | wordEdge, place, next => guarded place.atWordEdge place next
  | lineStart, place, next => guarded place.atLineStart place next
  | finish, place, next => guarded place.atFinish place next

/-! ### The places a pattern reaches -/

/-- All places reached by repeating a step, more repetitions first. -/
def iterated (step : Place σ → List (Place σ)) : Text → Place σ → List (Place σ)
  | [], place => [place]
  | _ :: ahead, place => (step place).flatMap (iterated step ahead) ++ [place]

/-- All places to which the pattern leads, in the order of preference. -/
def reached : Pattern σ → Place σ → List (Place σ)
  | empty, place => [place]
  | one accepts, place => (place.step? accepts).toList
  | seq first second, place => (first.reached place).flatMap second.reached
  | alt first second, place => first.reached place ++ second.reached place
  | many greed accepts, place => place.reach greed accepts
  | star body, place => iterated (fun here => body.reached here) place.rest place
  | noted slot body, place => (body.reached place).map (Place.note slot place)
  | notAhead body, place => if (body.reached place).isEmpty then [place] else []
  | notBehind rejects, place => if place.follows rejects then [] else [place]
  | wordEdge, place => if place.atWordEdge then [place] else []
  | lineStart, place => if place.atLineStart then [place] else []
  | finish, place => if place.atFinish then [place] else []

theorem guarded_eq_findSome? (holds : Bool) (place : Place σ) (next : Continuation σ) :
    guarded holds place next = (if holds then [place] else []).findSome? next := by
  cases holds <;> simp [guarded]

theorem findSome?_flatMap {α β γ : Type} (f : α → List β) (g : β → Option γ) (items : List α) :
    (items.flatMap f).findSome? g = items.findSome? fun item => (f item).findSome? g := by
  induction items with
  | nil => rfl
  | cons item items ih =>
    simp only [List.flatMap_cons, List.findSome?_append, List.findSome?_cons, ih]
    cases (f item).findSome? g <;> rfl

theorem iterate_eq_findSome? {step : Place σ → Continuation σ → Option (Place σ)}
    {places : Place σ → List (Place σ)}
    (agree : ∀ place next, step place next = (places place).findSome? next)
    (ahead : Text) (place : Place σ) (next : Continuation σ) :
    iterate step ahead place next = (iterated places ahead place).findSome? next := by
  induction ahead generalizing place with
  | nil => simp [iterate, iterated]
  | cons _ ahead ih =>
    simp only [iterate, iterated, agree, ih, List.findSome?_append, findSome?_flatMap,
      List.findSome?_cons, List.findSome?_nil]
    cases (places place).findSome? fun reached => (iterated places ahead reached).findSome? next
    · cases next place <;> rfl
    · rfl

/-- Running a pattern is looking for the first accepted place among those it reaches. -/
theorem run_eq_findSome? (p : Pattern σ) (place : Place σ) (next : Continuation σ) :
    p.run place next = (p.reached place).findSome? next := by
  induction p generalizing place next with
  | empty => cases h : next place <;> simp [run, reached, h]
  | one accepts =>
    cases h : place.step? accepts with
    | none => simp [run, reached, h]
    | some place' => cases h' : next place' <;> simp [run, reached, h, h']
  | seq first second ih₁ ih₂ => simp only [run, reached, ih₁, ih₂, findSome?_flatMap]
  | alt first second ih₁ ih₂ =>
    simp only [run, reached, ih₁, ih₂, List.findSome?_append]
    cases (first.reached place).findSome? next <;> rfl
  | many => rfl
  | star body ih => exact iterate_eq_findSome? ih place.rest place next
  | noted slot body ih => simp only [run, reached, ih, List.findSome?_map]; rfl
  | notAhead body ih =>
    simp only [run, reached, ih, guarded_eq_findSome?]
    congr 1
    cases body.reached place <;> simp
  | notBehind rejects =>
    simp only [run, reached, guarded_eq_findSome?]
    cases place.follows rejects <;> rfl
  | wordEdge => exact guarded_eq_findSome? _ _ _
  | lineStart => exact guarded_eq_findSome? _ _ _
  | finish => exact guarded_eq_findSome? _ _ _

end Pattern

end Diagrams
