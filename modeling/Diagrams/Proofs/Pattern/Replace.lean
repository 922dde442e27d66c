/-
Replacing matches from left to right.

`replaceAll` first lists all matches and then cuts the text at them.  Here the two go hand
in hand: a character at which no match starts stays, and a stretch that a match covers
makes way for the replacement.
-/
import Diagrams.Proofs.Pattern.Search

namespace Diagrams.Pattern

variable {σ : Type} {p : Pattern σ} {replacement : Text}

/-- The text `rest` with every match replaced, where `before` stands in front of it. -/
def replaceFrom (p : Pattern σ) (replacement : Text) (before : Option Char) (offset : Nat)
    (rest : Text) : Text :=
  replaceMatches replacement offset rest (p.findAllFrom 0 before offset rest)

theorem replaceAll_eq_replaceFrom (text : Text) :
    p.replaceAll replacement text = p.replaceFrom replacement none 0 text := rfl

variable {before : Option Char} {offset : Nat}

theorem replaceFrom_nil : p.replaceFrom replacement before offset [] = [] := rfl

/-- A search goes forward. -/
theorem offset_le_of_mem_findAllFrom {skip : Nat} {rest : Text} {found : Match σ}
    (h : found ∈ p.findAllFrom skip before offset rest) : offset ≤ found.first.offset := by
  induction rest generalizing skip before offset with
  | nil => simp [findAllFrom] at h
  | cons c rest ih =>
      cases skip with
      | succ skip => exact Nat.le_of_succ_le (ih h)
      | zero =>
          cases hmatch : p.matchAt? ⟨before, c :: rest, offset, []⟩ with
          | none =>
              rw [findAllFrom, hmatch] at h
              exact Nat.le_of_succ_le (ih h)
          | some other =>
              rw [findAllFrom, hmatch] at h
              rcases List.mem_cons.mp h with rfl | hlater
              · obtain ⟨last, -, rfl⟩ := Option.map_eq_some_iff.mp hmatch
                exact Nat.le_refl offset
              · exact Nat.le_of_succ_le (ih hlater)

/-- A character at which no match starts stays. -/
theorem replaceFrom_cons {c : Char} {rest : Text}
    (h : p.matchAt? ⟨before, c :: rest, offset, []⟩ = none) :
    p.replaceFrom replacement before offset (c :: rest)
      = c :: p.replaceFrom replacement (some c) (offset + 1) rest := by
  have hfind : p.findAllFrom 0 before offset (c :: rest)
      = p.findAllFrom 0 (some c) (offset + 1) rest := by
    rw [findAllFrom, h]
  unfold replaceFrom
  rw [hfind]
  cases hfound : p.findAllFrom 0 (some c) (offset + 1) rest with
  | nil => rfl
  | cons found others =>
      have hle : offset + 1 ≤ found.first.offset :=
        offset_le_of_mem_findAllFrom (hfound ▸ List.mem_cons_self)
      have htake : found.first.offset - offset = (found.first.offset - (offset + 1)) + 1 := by omega
      rw [replaceMatches, replaceMatches, htake, List.take_succ_cons]
      rfl

/-- A stretch in which no match starts stays. -/
theorem replaceFrom_append_of_none {front rest : Text}
    (hnone : ∀ near c far, front = near ++ c :: far → ∀ place : Place σ,
      place.before = near.getLast?.or before → place.rest = c :: (far ++ rest) →
      p.matchAt? place = none) :
    p.replaceFrom replacement before offset (front ++ rest)
      = front ++ p.replaceFrom replacement (front.getLast?.or before)
      (offset + front.length) rest := by
  induction front generalizing before offset with
  | nil => rfl
  | cons c front ih =>
      have hhere := hnone [] c front rfl ⟨before, c :: (front ++ rest), offset, []⟩ rfl rfl
      rw [getLast?_cons_or, add_length_cons, List.cons_append, List.cons_append,
        replaceFrom_cons hhere, ih]
      intro near d far hsplit place hbefore hrest
      refine hnone (c :: near) d far (by rw [hsplit]; rfl) place ?_ hrest
      rw [hbefore, getLast?_cons_or]

/-- A stretch that a match covers is replaced. -/
theorem replaceFrom_append {front rest : Text} {last : Place σ} (hne : front ≠ [])
    (h : p.run ⟨before, front ++ rest, offset, []⟩ some = some last)
    (hlast : last.offset = offset + front.length) (hrest : last.rest = rest) :
    p.replaceFrom replacement before offset (front ++ rest)
      = replacement ++ p.replaceFrom replacement (front.getLast?.or before)
          (offset + front.length) rest := by
  unfold replaceFrom
  rw [findAllFrom_of_run hne h hlast, replaceMatches, Nat.sub_self, List.take_zero, List.nil_append,
    hlast, hrest]

end Diagrams.Pattern
