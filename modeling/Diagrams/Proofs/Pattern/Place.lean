/-
Places of a text, told by what lies between them.

A match moves over a text from place to place.  `Place.past` names the place after a given
stretch, and `Place.marked` the place with one more stretch noted; every place that a
pattern leads to has one of these forms.  The places over characters of one class are
spelled out for both kinds of repetition: the farthest one comes first where the repetition
is greedy, the nearest where it is lazy.
-/
import Diagrams.Pattern.Search

namespace Diagrams

namespace Place

variable {σ : Type}

/-- The place after `front`, where `rest` is left. -/
def past (place : Place σ) (front rest : Text) : Place σ :=
  { place with
    before := front.getLast?.or place.before
    rest := rest
    offset := place.offset + front.length }

/-- The place with `covered` noted, after which `rest` came. -/
def marked (place : Place σ) (slot : σ) (covered rest : Text) : Place σ :=
  { place with
    notes := (slot, { onward := covered ++ rest, length := covered.length }) :: place.notes }

section

variable (place : Place σ) (front rest : Text) (slot : σ)

@[simp] theorem rest_start (text : Text) : (start text : Place σ).rest = text := rfl

@[simp] theorem notes_start (text : Text) : (start text : Place σ).notes = [] := rfl

@[simp] theorem rest_past : (place.past front rest).rest = rest := rfl

@[simp] theorem notes_past : (place.past front rest).notes = place.notes := rfl

@[simp] theorem offset_past : (place.past front rest).offset = place.offset + front.length := rfl

@[simp] theorem before_past : (place.past front rest).before = front.getLast?.or place.before := rfl

@[simp] theorem rest_marked : (place.marked slot front rest).rest = place.rest := rfl

@[simp] theorem before_marked : (place.marked slot front rest).before = place.before := rfl

@[simp] theorem offset_marked : (place.marked slot front rest).offset = place.offset := rfl

theorem past_nil {place : Place σ} {rest : Text} (h : place.rest = rest) :
    place.past [] rest = place := by
  subst h
  rfl

@[simp] theorem past_past (front' rest' : Text) :
    (place.past front rest).past front' rest' = place.past (front ++ front') rest' := by
  simp [past, List.getLast?_append, Option.or_assoc, Nat.add_assoc]

@[simp] theorem past_marked (covered after : Text) :
    (place.marked slot covered after).past front rest
      = (place.past front rest).marked slot covered after := rfl

/-- A stretch noted over `covered` is the mark of `covered`. -/
theorem note_past {place : Place σ} {covered rest : Text} (h : place.rest = covered ++ rest) :
    note slot place (place.past covered rest)
      = (place.past covered rest).marked slot covered rest := by
  simp [note, marked, past, h]

end

theorem step?_eq_some_iff (place place' : Place σ) (accepts : Char → Bool) :
    place.step? accepts = some place' ↔
      ∃ c rest, place.rest = c :: rest ∧ accepts c = true ∧ place' = place.past [c] rest := by
  unfold step?
  cases hrest : place.rest with
  | nil => simp
  | cons c rest =>
      show (if accepts c = true then some (place.past [c] rest) else none) = some place' ↔ _
      by_cases hc : accepts c = true
      · rw [if_pos hc, Option.some.injEq]
        constructor
        · rintro rfl
          exact ⟨c, rest, rfl, hc, rfl⟩
        · rintro ⟨_, _, hcons, -, rfl⟩
          obtain ⟨rfl, rfl⟩ := List.cons.inj hcons
          rfl
      · rw [if_neg hc]
        simp only [reduceCtorEq, false_iff]
        rintro ⟨_, _, hcons, hc', -⟩
        exact hc ((List.cons.inj hcons).1 ▸ hc')

/-! ### Characters of one class -/

theorem reachAhead_append (accepts : Char → Bool) (ahead : Text) (place : Place σ)
    (nearer farther : List (Place σ)) :
    reachAhead accepts ahead place (nearer ++ farther)
      = reachAhead accepts ahead place nearer ++ farther := by
  induction ahead generalizing place nearer with
  | nil => rfl
  | cons c ahead ih =>
      unfold reachAhead
      by_cases hc : accepts c = true
      · rw [if_pos hc, if_pos hc, ← List.cons_append, ih]
      · rw [if_neg hc, if_neg hc, List.cons_append]

theorem reachAhead_cons {accepts : Char → Bool} {place : Place σ} {c : Char} {rest : Text}
    (h : place.rest = c :: rest) (hc : accepts c = true) :
    reachAhead accepts place.rest place []
      = reachAhead accepts rest (place.past [c] rest) [] ++ [place] := by
  rw [h, ← reachAhead_append, List.nil_append, reachAhead, if_pos hc]
  rfl

/-- Nothing is reached but the place itself where the next character does not pass. -/
theorem reach_of_stop {accepts : Char → Bool} {place : Place σ}
    (h : ∀ c ∈ place.rest.head?, accepts c = false) (greed : Greed) :
    place.reach greed accepts = [place] := by
  have hahead : reachAhead accepts place.rest place [] = [place] := by
    cases hrest : place.rest with
    | nil => rfl
    | cons c rest =>
        have hc : ¬ accepts c = true := by
          rw [h c (by simp [hrest])]
          exact Bool.false_ne_true
        rw [reachAhead, if_neg hc]
  unfold reach
  rw [hahead]
  cases greed <;> rfl

theorem reach_greedy_cons {accepts : Char → Bool} {place : Place σ} {c : Char} {rest : Text}
    (h : place.rest = c :: rest) (hc : accepts c = true) :
    place.reach .greedy accepts = (place.past [c] rest).reach .greedy accepts ++ [place] :=
  reachAhead_cons h hc

theorem reach_lazy_cons {accepts : Char → Bool} {place : Place σ} {c : Char} {rest : Text}
    (h : place.rest = c :: rest) (hc : accepts c = true) :
    place.reach .lazy accepts = place :: (place.past [c] rest).reach .lazy accepts := by
  show (reachAhead accepts place.rest place []).reverse = _
  rw [reachAhead_cons h hc, List.reverse_append]
  rfl

/-- The places over characters of a class are those after a stretch of such characters. -/
theorem mem_reach {greed : Greed} {accepts : Char → Bool} {place place' : Place σ} :
    place' ∈ place.reach greed accepts ↔
      ∃ front rest, place.rest = front ++ rest ∧ (∀ c ∈ front, accepts c = true) ∧
        place' = place.past front rest := by
  have hgreedy : place' ∈ place.reach greed accepts ↔ place' ∈ place.reach .greedy accepts := by
    cases greed with
    | greedy => rfl
    | lazy => exact List.mem_reverse
  rw [hgreedy]
  clear hgreedy
  induction hrest : place.rest generalizing place with
  | nil =>
      rw [reach_of_stop (by simp [hrest]), List.mem_singleton]
      constructor
      · rintro rfl
        exact ⟨[], [], rfl, by simp, (past_nil hrest).symm⟩
      · rintro ⟨front, rest, happ, -, rfl⟩
        obtain ⟨rfl, rfl⟩ := List.append_eq_nil_iff.mp happ.symm
        exact past_nil hrest
  | cons c ahead ih =>
      by_cases hc : accepts c = true
      · have hih : place' ∈ (place.past [c] ahead).reach .greedy accepts ↔
            ∃ front rest, ahead = front ++ rest ∧ (∀ c ∈ front, accepts c = true) ∧
              place' = (place.past [c] ahead).past front rest := ih rfl
        rw [reach_greedy_cons hrest hc, List.mem_append, List.mem_singleton, hih]
        constructor
        · rintro (⟨front, rest, rfl, hfront, rfl⟩ | rfl)
          · refine ⟨c :: front, rest, rfl, ?_, by simp⟩
            exact List.forall_mem_cons.mpr ⟨hc, hfront⟩
          · exact ⟨[], c :: ahead, rfl, by simp, (past_nil hrest).symm⟩
        · rintro ⟨front, rest, happ, hfront, rfl⟩
          cases front with
          | nil => exact .inr (past_nil (hrest.trans happ))
          | cons d front =>
              obtain ⟨rfl, rfl⟩ := List.cons.inj happ
              left
              exact ⟨front, rest, rfl, (List.forall_mem_cons.mp hfront).2, by simp⟩
      · have hstop : ∀ d ∈ place.rest.head?, accepts d = false := by
          intro d hd
          obtain rfl : c = d := by simpa [hrest] using hd
          simpa using hc
        rw [reach_of_stop hstop, List.mem_singleton]
        constructor
        · rintro rfl
          exact ⟨[], c :: ahead, rfl, by simp, (past_nil hrest).symm⟩
        · rintro ⟨front, rest, happ, hfront, rfl⟩
          cases front with
          | nil => exact past_nil (hrest.trans happ)
          | cons d front =>
              obtain ⟨rfl, -⟩ := List.cons.inj happ
              exact absurd (hfront c List.mem_cons_self) hc

end Place

/-! ### What a match has noted -/

namespace Match

variable {σ : Type} [DecidableEq σ]

@[simp] theorem text?_past (first place : Place σ) (front rest : Text) (slot : σ) :
    (Match.mk first (place.past front rest)).text? slot = (Match.mk first place).text? slot := rfl

@[simp] theorem text?_marked_self (first place : Place σ) (slot : σ) (covered rest : Text) :
    (Match.mk first (place.marked slot covered rest)).text? slot = some covered := by
  simp [text?, Place.marked, Stretch.text]

@[simp] theorem text?_marked_of_ne (first place : Place σ) {slot other : σ} (h : slot ≠ other)
    (covered rest : Text) :
    (Match.mk first (place.marked slot covered rest)).text? other
      = (Match.mk first place).text? other := by
  simp [text?, Place.marked, h]

@[simp] theorem text?_start (first : Place σ) (text : Text) (slot : σ) :
    (Match.mk first (.start text)).text? slot = none := rfl

end Match

end Diagrams
