/-
What a search for all matches finds in a stretch of a text.

A search goes from left to right and forgets what lies behind it, so it can be told stretch by
stretch.  `Finds` says what is read off the matches in one stretch, given the text that follows, and
stretches are put together again with `Finds.append`.  Where no match starts in a stretch nothing is
found there; `Skips` says so, and it is put together in the same way.
-/
import Diagrams.Proofs.Pattern.Search
import Diagrams.Proofs.Text.Cutting

namespace Diagrams.Pattern

variable {σ α : Type} {p : Pattern σ} {read : Match σ → α} {front middle rest : Text}

/-- No match starts in the stretch `front` when `rest` follows. -/
def Skips (p : Pattern σ) (front rest : Text) : Prop :=
  ∀ near c far, front = near ++ c :: far → ∀ place : Place σ, place.rest = c :: (far ++ rest) →
    p.matchAt? place = none

/-- A search reads `values` off the matches in the stretch `front` when `rest` follows. -/
def Finds (p : Pattern σ) (read : Match σ → α) (front rest : Text) (values : List α) : Prop :=
  ∀ before offset, (p.findAllFrom 0 before offset (front ++ rest)).map read
    = values ++ (p.findAllFrom 0 (front.getLast?.or before) (offset + front.length) rest).map read

namespace Skips

theorem nil : p.Skips [] rest := by
  intro near c far hsplit
  exact absurd hsplit (by simp)

/-- No match starts at the first character or at one of the others. -/
theorem cons {c : Char} (h : ∀ place : Place σ, place.rest = c :: (front ++ rest) →
    p.matchAt? place = none) (h' : p.Skips front rest) : p.Skips (c :: front) rest := by
  intro near d far hsplit place hplace
  cases near with
  | nil =>
      obtain ⟨rfl, rfl⟩ := List.cons.inj hsplit
      exact h place hplace
  | cons e near => exact h' near d far (List.cons.inj hsplit).2 place hplace

theorem append (h : p.Skips front (middle ++ rest)) (h' : p.Skips middle rest) :
    p.Skips (front ++ middle) rest := by
  intro near c far hsplit place hplace
  rcases append_eq_append_cons hsplit with ⟨between, hfront, rfl⟩ | ⟨between, rfl, hmiddle⟩
  · exact h near c between hfront place (by rw [hplace, List.append_assoc])
  · exact h' between c far hmiddle place hplace

/-- A search for the first match goes on behind a stretch in which none starts. -/
theorem findFrom? (h : p.Skips front rest) (before : Option Char) (offset : Nat) :
    p.findFrom? before offset (front ++ rest)
      = p.findFrom? (front.getLast?.or before) (offset + front.length) rest :=
  findFrom?_append fun near c far hsplit place _ hplace => h near c far hsplit place hplace

/-- Where no match starts nothing is found. -/
theorem finds (h : p.Skips front rest) : p.Finds read front rest [] := by
  intro before offset
  rw [findAllFrom_append fun near c far hsplit place _ hplace => h near c far hsplit place hplace]
  rfl

end Skips

namespace Finds

/-- What is found in two stretches is found in the one and then in the other. -/
theorem append {values others : List α} (h : p.Finds read front (middle ++ rest) values)
    (h' : p.Finds read middle rest others) :
    p.Finds read (front ++ middle) rest (values ++ others) := by
  intro before offset
  rw [List.append_assoc, h, h', List.append_assoc, List.getLast?_append, Option.or_assoc,
    List.length_append, Nat.add_assoc]

/-- One match that covers the stretch. -/
theorem of_run {value : α} (hne : front ≠ [])
    (h : ∀ place : Place σ, place.rest = front ++ rest →
      ∃ last, p.run place some = some last ∧ last.offset = place.offset + front.length ∧
        read ⟨place, last⟩ = value) : p.Finds read front rest [value] := by
  intro before offset
  obtain ⟨last, hrun, hlast, hread⟩ := h ⟨before, front ++ rest, offset, []⟩ rfl
  rw [findAllFrom_of_run hne hrun hlast, List.map_cons, hread]
  rfl

/-- What is found in a whole text. -/
theorem map_findAll {text : Text} {values : List α} (h : p.Finds read text [] values) :
    (p.findAll text).map read = values := by
  have hall := h none 0
  rw [List.append_nil] at hall
  rw [findAll, hall]
  simp [findAllFrom]

end Finds

end Diagrams.Pattern
