/-
Where a search finds its first match.

A search tries one place after the other, so it passes over every stretch at whose characters the
pattern cannot start, and it stays at the first place from which a run succeeds.
-/
import Diagrams.Proofs.Pattern.Run
import Diagrams.Proofs.Text.Cutting

namespace Diagrams.Pattern

variable {σ : Type} {p : Pattern σ} {before : Option Char} {offset : Nat} {front rest : Text}

theorem matchAt?_eq_none_iff {place : Place σ} :
    p.matchAt? place = none ↔ ∀ mid, ¬ mid ∈ p.reached place := by
  unfold matchAt?
  rw [Option.map_eq_none_iff, run_some_eq_none_iff]

/-- A search passes over a stretch in which no match starts. -/
theorem findFrom?_append
    (hnone : ∀ near c far, front = near ++ c :: far → ∀ place : Place σ,
      place.before = near.getLast?.or before → place.rest = c :: (far ++ rest) →
      p.matchAt? place = none) :
    p.findFrom? before offset (front ++ rest)
      = p.findFrom? (front.getLast?.or before) (offset + front.length) rest := by
  induction front generalizing before offset with
  | nil => rfl
  | cons c front ih =>
      rw [List.cons_append]
      have hhere := hnone [] c front rfl ⟨before, c :: (front ++ rest), offset, []⟩ rfl rfl
      rw [findFrom?, hhere]
      show p.findFrom? (some c) (offset + 1) (front ++ rest) = _
      rw [ih]
      · congr 1
        · exact (getLast?_cons_or c front before).symm
        · rw [List.length_cons]
          omega
      · intro near d far hsplit place hbefore hrest
        refine hnone (c :: near) d far (by rw [hsplit]; rfl) place ?_ hrest
        rw [hbefore, getLast?_cons_or]

theorem findFrom?_eq_of_run {last : Place σ}
    (h : p.run ⟨before, rest, offset, []⟩ some = some last) :
    p.findFrom? before offset rest = some ⟨⟨before, rest, offset, []⟩, last⟩ := by
  have hmatch : p.matchAt? ⟨before, rest, offset, []⟩
      = some ⟨⟨before, rest, offset, []⟩, last⟩ := by
    rw [matchAt?, h]
    rfl
  cases rest with
  | nil => exact hmatch
  | cons c rest => rw [findFrom?, hmatch]

/-- A search succeeds where the pattern can go some way from one of the places of the text. -/
theorem findFrom?_isSome_iff :
    (p.findFrom? before offset rest).isSome = true ↔
      ∃ near far, rest = near ++ far ∧
        ∃ mid, mid ∈ p.reached ⟨near.getLast?.or before, far, offset + near.length, []⟩ := by
  have hhere : ∀ place : Place σ, (p.matchAt? place).isSome = true ↔
      ∃ mid, mid ∈ p.reached place := by
    intro place
    rw [← not_iff_not, Bool.not_eq_true, Option.isSome_eq_false_iff, Option.isNone_iff_eq_none,
      matchAt?_eq_none_iff, not_exists]
  induction rest generalizing before offset with
  | nil =>
      rw [findFrom?, hhere]
      constructor
      · intro h
        exact ⟨[], [], rfl, h⟩
      · intro h
        obtain ⟨near, far, hsplit, hmid⟩ := h
        obtain ⟨rfl, rfl⟩ := List.append_eq_nil_iff.mp hsplit.symm
        exact hmid
  | cons c rest ih =>
      cases hmatch : p.matchAt? ⟨before, c :: rest, offset, []⟩ with
      | some found =>
          have hfirst : p.findFrom? before offset (c :: rest) = some found := by
            rw [findFrom?, hmatch]
          have hmid := (hhere ⟨before, c :: rest, offset, []⟩).mp (by rw [hmatch]; rfl)
          rw [hfirst]
          exact iff_of_true rfl ⟨[], c :: rest, rfl, hmid⟩
      | none =>
          have hlater : p.findFrom? before offset (c :: rest)
              = p.findFrom? (some c) (offset + 1) rest := by
            rw [findFrom?, hmatch]
          rw [hlater]
          refine ih.trans ⟨?_, ?_⟩
          · intro h
            obtain ⟨near, far, rfl, hmid⟩ := h
            refine ⟨c :: near, far, rfl, ?_⟩
            rw [getLast?_cons_or, List.length_cons, Nat.add_comm near.length 1, ← Nat.add_assoc]
            exact hmid
          · intro h
            obtain ⟨near, far, hsplit, hmid⟩ := h
            cases near with
            | nil =>
                have hsame : far = c :: rest := by simpa using hsplit.symm
                obtain ⟨mid, hmid⟩ := hmid
                subst hsame
                exact absurd hmid (matchAt?_eq_none_iff.mp hmatch mid)
            | cons d near =>
                obtain ⟨rfl, rfl⟩ := List.cons.inj hsplit
                refine ⟨near, far, rfl, ?_⟩
                rw [getLast?_cons_or, List.length_cons, Nat.add_comm near.length 1,
                  ← Nat.add_assoc] at hmid
                exact hmid

/-! ### All matches -/

/-- What a match has covered is skipped. -/
theorem findAllFrom_skip (front rest : Text) (before : Option Char) (offset : Nat) :
    p.findAllFrom front.length before offset (front ++ rest)
      = p.findAllFrom 0 (front.getLast?.or before) (offset + front.length) rest := by
  induction front generalizing before offset with
  | nil => rfl
  | cons c front ih =>
      rw [getLast?_cons_or, add_length_cons, ← ih]
      rfl

/-- A search for all matches passes over a stretch in which none starts. -/
theorem findAllFrom_append
    (hnone : ∀ near c far, front = near ++ c :: far → ∀ place : Place σ,
      place.before = near.getLast?.or before → place.rest = c :: (far ++ rest) →
      p.matchAt? place = none) :
    p.findAllFrom 0 before offset (front ++ rest)
      = p.findAllFrom 0 (front.getLast?.or before) (offset + front.length) rest := by
  induction front generalizing before offset with
  | nil => rfl
  | cons c front ih =>
      have hhere := hnone [] c front rfl ⟨before, c :: (front ++ rest), offset, []⟩ rfl rfl
      rw [getLast?_cons_or, add_length_cons, ← ih, List.cons_append, findAllFrom, hhere]
      intro near d far hsplit place hbefore hrest
      refine hnone (c :: near) d far (by rw [hsplit]; rfl) place ?_ hrest
      rw [hbefore, getLast?_cons_or]

/-- A match is found where a run succeeds, and the search goes on behind it. -/
theorem findAllFrom_of_run {last : Place σ} (hne : front ≠ [])
    (h : p.run ⟨before, front ++ rest, offset, []⟩ some = some last)
    (hlast : last.offset = offset + front.length) :
    p.findAllFrom 0 before offset (front ++ rest)
      = ⟨⟨before, front ++ rest, offset, []⟩, last⟩ ::
        p.findAllFrom 0 (front.getLast?.or before) (offset + front.length) rest := by
  obtain ⟨c, front, rfl⟩ := List.exists_cons_of_ne_nil hne
  rw [List.cons_append] at h ⊢
  have hmatch : p.matchAt? ⟨before, c :: (front ++ rest), offset, []⟩
      = some ⟨⟨before, c :: (front ++ rest), offset, []⟩, last⟩ := by
    rw [matchAt?, h]
    rfl
  have hlength : (Match.mk ⟨before, c :: (front ++ rest), offset, []⟩ last).length - 1
      = front.length := by
    show last.offset - offset - 1 = front.length
    rw [hlast, List.length_cons]
    omega
  rw [findAllFrom, hmatch]
  show _ :: p.findAllFrom ((Match.mk _ last).length - 1) (some c) (offset + 1) (front ++ rest) = _
  rw [hlength, findAllFrom_skip, getLast?_cons_or, add_length_cons]

/-- Where no match starts none is found. -/
theorem findAll_eq_nil {text : Text}
    (hnone : ∀ near c far, text = near ++ c :: far → ∀ place : Place σ,
      place.before = near.getLast? → place.rest = c :: far → p.matchAt? place = none) :
    p.findAll text = [] := by
  have happend : p.findAllFrom 0 none 0 (text ++ [])
      = p.findAllFrom 0 (text.getLast?.or none) (0 + text.length) [] :=
    findAllFrom_append fun near c far hsplit place hbefore hrest =>
      hnone near c far hsplit place (by simpa using hbefore) (by simpa using hrest)
  rw [List.append_nil] at happend
  rw [findAll, happend]
  rfl

/-- Where no match starts nothing is replaced. -/
theorem replaceAll_eq_self {replacement text : Text}
    (hnone : ∀ near c far, text = near ++ c :: far → ∀ place : Place σ,
      place.before = near.getLast? → place.rest = c :: far → p.matchAt? place = none) :
    p.replaceAll replacement text = text := by
  rw [replaceAll, findAll_eq_nil hnone]
  rfl

end Diagrams.Pattern
