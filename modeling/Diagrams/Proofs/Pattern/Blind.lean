/-
Patterns that take one character for another.

A map of characters changes nothing for a pattern whose tests give the same answer before and after
it; such a pattern is blind to the map.  Read on the mapped text it goes through the same places as
on the text itself, with their characters mapped, so it matches in the same stretches and notes the
same stretches.  Nothing is asked of the map but this: it may well send different characters to one.
-/
import Diagrams.Pattern.Search

namespace Diagrams

variable {σ : Type}

/-! ### Places of a mapped text -/

/-- The stretch of the mapped text. -/
def Stretch.map (f : Char → Char) (stretch : Stretch) : Stretch :=
  { stretch with onward := stretch.onward.map f }

@[simp] theorem Stretch.text_map (f : Char → Char) (stretch : Stretch) :
    (stretch.map f).text = stretch.text.map f := by
  simp [Stretch.text, Stretch.map]

namespace Place

/-- The place of the mapped text. -/
def map (f : Char → Char) (place : Place σ) : Place σ where
  before := place.before.map f
  rest := place.rest.map f
  offset := place.offset
  notes := place.notes.map fun note => (note.1, note.2.map f)

variable {f : Char → Char} {place : Place σ} {test : Char → Bool}

theorem map_step? (h : ∀ c, test (f c) = test c) :
    (place.map f).step? test = (place.step? test).map (map f) := by
  cases hrest : place.rest with
  | nil => simp [step?, map, hrest]
  | cons c rest =>
      cases hc : test c with
      | true => simp [step?, map, hrest, h, hc]
      | false => simp [step?, map, hrest, h, hc]

theorem map_reachAhead (h : ∀ c, test (f c) = test c) (ahead : Text) (place : Place σ)
    (nearer : List (Place σ)) :
    reachAhead test (ahead.map f) (place.map f) (nearer.map (map f))
      = (reachAhead test ahead place nearer).map (map f) := by
  induction ahead generalizing place nearer with
  | nil => rfl
  | cons c ahead ih =>
      rw [List.map_cons, reachAhead, reachAhead, h]
      cases test c with
      | true => exact ih ⟨some c, ahead, place.offset + 1, place.notes⟩ (place :: nearer)
      | false => rfl

theorem map_reach (h : ∀ c, test (f c) = test c) (greed : Greed) (place : Place σ) :
    (place.map f).reach greed test = (place.reach greed test).map (map f) := by
  have hahead : reachAhead test (place.map f).rest (place.map f) []
      = (reachAhead test place.rest place []).map (map f) :=
    map_reachAhead h place.rest place []
  cases greed with
  | greedy => exact hahead
  | lazy =>
      show (reachAhead test (place.map f).rest (place.map f) []).reverse = _
      rw [hahead, ← List.map_reverse]
      rfl

theorem follows_map (h : ∀ c, test (f c) = test c) (place : Place σ) :
    (place.map f).follows test = place.follows test := by
  cases hbefore : place.before with
  | none => simp [follows, map, hbefore]
  | some c => simp [follows, map, hbefore, h]

theorem precedes_map (h : ∀ c, test (f c) = test c) (place : Place σ) :
    (place.map f).precedes test = place.precedes test := by
  cases hrest : place.rest with
  | nil => simp [precedes, map, hrest]
  | cons c rest => simp [precedes, map, hrest, h]

theorem atWordEdge_map (h : ∀ c, isWordChar (f c) = isWordChar c) (place : Place σ) :
    (place.map f).atWordEdge = place.atWordEdge := by
  rw [atWordEdge, atWordEdge, follows_map h, precedes_map h]

theorem atLineStart_map (h : ∀ c, (f c == '\n') = (c == '\n')) (place : Place σ) :
    (place.map f).atLineStart = place.atLineStart := by
  cases hbefore : place.before with
  | none => simp [atLineStart, map, hbefore]
  | some c => simp [atLineStart, map, hbefore, h]

theorem atFinish_map (h : ∀ c, (f c == '\n') = (c == '\n')) (place : Place σ) :
    (place.map f).atFinish = place.atFinish := by
  rcases hrest : place.rest with _ | ⟨c, _ | ⟨d, rest⟩⟩
  · simp [atFinish, map, hrest]
  · simp [atFinish, map, hrest, h]
  · simp [atFinish, map, hrest]

end Place

/-! ### Blind patterns -/

namespace Pattern

/-- No test of the pattern tells a character from its image, and no boundary moves. -/
def Blind (f : Char → Char) : Pattern σ → Prop
  | empty => True
  | one accepts => ∀ c, accepts (f c) = accepts c
  | seq first second => first.Blind f ∧ second.Blind f
  | alt first second => first.Blind f ∧ second.Blind f
  | many _ accepts => ∀ c, accepts (f c) = accepts c
  | star body => body.Blind f
  | noted _ body => body.Blind f
  | notAhead body => body.Blind f
  | notBehind rejects => ∀ c, rejects (f c) = rejects c
  | wordEdge => ∀ c, isWordChar (f c) = isWordChar c
  | lineStart => ∀ c, (f c == '\n') = (c == '\n')
  | finish => ∀ c, (f c == '\n') = (c == '\n')

variable {f : Char → Char} {p q : Pattern σ} {test : Char → Bool}

@[simp] theorem blind_empty : (empty : Pattern σ).Blind f := trivial

@[simp] theorem blind_one : (one test : Pattern σ).Blind f ↔ ∀ c, test (f c) = test c := Iff.rfl

@[simp] theorem blind_seq : (seq p q).Blind f ↔ p.Blind f ∧ q.Blind f := Iff.rfl

@[simp] theorem blind_many {greed : Greed} :
    (many greed test : Pattern σ).Blind f ↔ ∀ c, test (f c) = test c := Iff.rfl

@[simp] theorem blind_noted {slot : σ} : (noted slot p).Blind f ↔ p.Blind f := Iff.rfl

@[simp] theorem blind_notAhead : (notAhead p).Blind f ↔ p.Blind f := Iff.rfl

@[simp] theorem blind_wordEdge :
    (wordEdge : Pattern σ).Blind f ↔ ∀ c, isWordChar (f c) = isWordChar c := Iff.rfl

@[simp] theorem blind_finish :
    (finish : Pattern σ).Blind f ↔ ∀ c, (f c == '\n') = (c == '\n') := Iff.rfl

@[simp] theorem blind_opt : (opt p).Blind f ↔ p.Blind f := and_iff_left trivial

@[simp] theorem blind_atLeastOne :
    (atLeastOne test : Pattern σ).Blind f ↔ ∀ c, test (f c) = test c := and_self_iff

theorem blind_all {ps : List (Pattern σ)} : (all ps).Blind f ↔ ∀ p ∈ ps, p.Blind f := by
  induction ps with
  | nil => simp [all]
  | cons p ps ih =>
      cases ps with
      | nil => simp [all]
      | cons q ps =>
          rw [List.forall_mem_cons, ← ih]
          exact Iff.rfl

theorem blind_oneOf {ps : List (Pattern σ)} : (oneOf ps).Blind f ↔ ∀ p ∈ ps, p.Blind f := by
  induction ps with
  | nil => simp [oneOf]
  | cons p ps ih =>
      cases ps with
      | nil => simp [oneOf]
      | cons q ps =>
          rw [List.forall_mem_cons, ← ih]
          exact Iff.rfl

theorem Blind.lazyUpTo (h : p.Blind f) (n : Nat) : (lazyUpTo p n).Blind f := by
  induction n with
  | zero => trivial
  | succ n ih => exact ⟨trivial, h, ih⟩

theorem iterated_map {step : Place σ → List (Place σ)}
    (h : ∀ place, step (place.map f) = (step place).map (Place.map f)) (ahead : Text)
    (place : Place σ) :
    iterated step (ahead.map f) (place.map f) = (iterated step ahead place).map (Place.map f) := by
  induction ahead generalizing place with
  | nil => rfl
  | cons c ahead ih =>
      simp only [List.map_cons, iterated, List.map_append, List.map_flatMap, List.map_nil, h,
        List.flatMap_map, ih]

/-- **A blind pattern reaches the same places of the mapped text.** -/
theorem Blind.reached_map (h : p.Blind f) (place : Place σ) :
    p.reached (place.map f) = (p.reached place).map (Place.map f) := by
  induction p generalizing place with
  | empty => rfl
  | one accepts =>
      rw [reached, reached, Place.map_step? h]
      cases place.step? accepts <;> rfl
  | seq first second ih₁ ih₂ =>
      simp only [reached, ih₁ h.1, ih₂ h.2, List.flatMap_map, List.map_flatMap]
  | alt first second ih₁ ih₂ => simp only [reached, ih₁ h.1, ih₂ h.2, List.map_append]
  | many greed accepts => exact Place.map_reach h greed place
  | star body ih => exact iterated_map (ih h) place.rest place
  | noted slot body ih =>
      simp only [reached, ih h, List.map_map]
      rfl
  | notAhead body ih =>
      simp only [reached, ih h, List.isEmpty_map]
      cases (body.reached place).isEmpty <;> rfl
  | notBehind rejects =>
      rw [reached, reached, Place.follows_map h]
      cases place.follows rejects <;> rfl
  | wordEdge =>
      rw [reached, reached, Place.atWordEdge_map h]
      cases place.atWordEdge <;> rfl
  | lineStart =>
      rw [reached, reached, Place.atLineStart_map h]
      cases place.atLineStart <;> rfl
  | finish =>
      rw [reached, reached, Place.atFinish_map h]
      cases place.atFinish <;> rfl

end Pattern

/-! ### Matches in a mapped text -/

namespace Match

variable {f : Char → Char}

/-- The match in the mapped text. -/
def map (f : Char → Char) (found : Match σ) : Match σ where
  first := found.first.map f
  last := found.last.map f

@[simp] theorem rest_map (found : Match σ) : (found.map f).rest = found.rest.map f := rfl

variable [DecidableEq σ]

@[simp] theorem text?_map (found : Match σ) (slot : σ) :
    (found.map f).text? slot = (found.text? slot).map (List.map f) := by
  unfold text?
  show ((found.last.notes.map fun note => (note.1, note.2.map f)).find? _).map _ = _
  rw [List.find?_map, Option.map_map, Option.map_map]
  congr 1
  funext note
  exact note.2.text_map f

@[simp] theorem text_map (found : Match σ) (slot : σ) :
    (found.map f).text slot = (found.text slot).map f := by
  unfold text
  rw [text?_map]
  cases found.text? slot <;> rfl

end Match

namespace Pattern.Blind

variable {f : Char → Char} {p : Pattern σ}

theorem matchAt? (h : p.Blind f) (place : Place σ) :
    p.matchAt? (place.map f) = (p.matchAt? place).map (Match.map f) := by
  unfold Pattern.matchAt?
  rw [run_eq_findSome?, run_eq_findSome?, h.reached_map]
  cases p.reached place <;> simp [Match.map]

theorem matchStart? (h : p.Blind f) (text : Text) :
    p.matchStart? (text.map f) = (p.matchStart? text).map (Match.map f) :=
  h.matchAt? (.start text)

theorem findFrom? (h : p.Blind f) (before : Option Char) (offset : Nat) (rest : Text) :
    p.findFrom? (before.map f) offset (rest.map f)
      = (p.findFrom? before offset rest).map (Match.map f) := by
  induction rest generalizing before offset with
  | nil => exact h.matchAt? ⟨before, [], offset, []⟩
  | cons c rest ih =>
      have hhere := h.matchAt? ⟨before, c :: rest, offset, []⟩
      simp only [Place.map, List.map_cons, List.map_nil] at hhere
      rw [List.map_cons, Pattern.findFrom?, Pattern.findFrom?, hhere]
      cases p.matchAt? ⟨before, c :: rest, offset, []⟩ with
      | some found => rfl
      | none => exact ih (some c) (offset + 1)

theorem find? (h : p.Blind f) (text : Text) :
    p.find? (text.map f) = (p.find? text).map (Match.map f) :=
  h.findFrom? none 0 text

theorem occursIn (h : p.Blind f) (text : Text) : p.occursIn (text.map f) = p.occursIn text := by
  rw [Pattern.occursIn, Pattern.occursIn, h.find?, Option.isSome_map]

theorem findAllFrom (h : p.Blind f) (skip : Nat) (before : Option Char) (offset : Nat)
    (rest : Text) :
    p.findAllFrom skip (before.map f) offset (rest.map f)
      = (p.findAllFrom skip before offset rest).map (Match.map f) := by
  induction rest generalizing skip before offset with
  | nil => simp [Pattern.findAllFrom]
  | cons c rest ih =>
      cases skip with
      | succ skip => exact ih skip (some c) (offset + 1)
      | zero =>
          have hhere := h.matchAt? ⟨before, c :: rest, offset, []⟩
          simp only [Place.map, List.map_cons, List.map_nil] at hhere
          rw [List.map_cons, Pattern.findAllFrom, Pattern.findAllFrom, hhere]
          cases p.matchAt? ⟨before, c :: rest, offset, []⟩ with
          | some found => exact congrArg _ (ih (found.length - 1) (some c) (offset + 1))
          | none => exact ih 0 (some c) (offset + 1)

theorem findAll (h : p.Blind f) (text : Text) :
    p.findAll (text.map f) = (p.findAll text).map (Match.map f) :=
  h.findAllFrom 0 none 0 text

end Pattern.Blind

end Diagrams
