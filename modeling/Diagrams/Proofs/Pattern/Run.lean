/-
The first way that succeeds.

A run tries the ways a pattern can go in order of preference, and the first one that the
continuation accepts decides.  The rules here follow that order through a pattern: a step that has
no choice hands its place on, a greedy repetition is at its farthest place when the rest succeeds
there, a lazy one at the nearest place where it does, and a choice is passed over where it leads to
nothing.  Read from the bottom up they reduce a run over a text of known shape to the run of what is
left of the pattern.
-/
import Diagrams.Proofs.Pattern.Paths

namespace Diagrams.Pattern

variable {σ : Type} {place : Place σ} {next : Continuation σ} {found : Place σ}

@[simp] theorem run_all_nil : (all []).run place next = next place := rfl

theorem run_all_cons (p : Pattern σ) (ps : List (Pattern σ)) :
    (all (p :: ps)).run place next = p.run place fun mid => (all ps).run mid next := by
  cases ps <;> rfl

theorem run_seq (p q : Pattern σ) :
    (seq p q).run place next = p.run place fun mid => q.run mid next := rfl

theorem run_one {accepts : Char → Bool} {c : Char} {rest : Text} (h : place.rest = c :: rest)
    (hc : accepts c = true) : (one accepts).run place next = next (place.past [c] rest) := by
  have hstep : place.step? accepts = some (place.past [c] rest) :=
    (Place.step?_eq_some_iff ..).mpr ⟨c, rest, h, hc, rfl⟩
  simp only [run, hstep]

theorem run_lit {c : Char} {rest : Text} (h : place.rest = c :: rest) :
    (lit c).run place next = next (place.past [c] rest) :=
  run_one h (by simp)

theorem run_lit_of_ne {c d : Char} {rest : Text} (h : place.rest = d :: rest) (hne : d ≠ c) :
    (lit c).run place next = none := by
  refine run_eq_none_iff.mpr fun mid hmid => ?_
  obtain ⟨_, hrest, -⟩ := mem_reached_lit.mp hmid
  exact absurd (List.cons.inj (h.symm.trans hrest)).1 hne

/-! ### Choices -/

theorem run_opt_of_some {p : Pattern σ} (h : p.run place next = some found) :
    (opt p).run place next = some found := by
  rw [opt, run, h]

theorem run_opt_of_none {p : Pattern σ} (h : p.run place next = none) :
    (opt p).run place next = next place := by
  rw [opt, run, h]
  rfl

theorem run_lazyOpt_of_some {p : Pattern σ} (h : next place = some found) :
    (lazyOpt p).run place next = some found := by
  rw [lazyOpt, run, run, h]

theorem run_lazyOpt_of_none {p : Pattern σ} (h : next place = none) :
    (lazyOpt p).run place next = p.run place next := by
  rw [lazyOpt, run, run, h]

theorem run_oneOf_cons (p : Pattern σ) (ps : List (Pattern σ)) :
    (oneOf (p :: ps)).run place next = (p.run place next).or ((oneOf ps).run place next) := by
  rw [run_eq_findSome?, run_eq_findSome?, run_eq_findSome?, reached_oneOf_cons,
    List.findSome?_append]

/-- A pattern that leads nowhere is passed over. -/
theorem run_eq_none {p : Pattern σ} (h : ∀ mid, ¬ mid ∈ p.reached place) :
    p.run place next = none :=
  run_eq_none_iff.mpr fun mid hmid => absurd hmid (h mid)

/-- Where only one place can be reached, that place decides. -/
theorem run_eq_next {p : Pattern σ} {only : Place σ} (hmem : only ∈ p.reached place)
    (h : ∀ mid ∈ p.reached place, mid = only) : p.run place next = next only := by
  cases hnext : next only with
  | none => exact run_eq_none_iff.mpr fun mid hmid => by rw [h mid hmid, hnext]
  | some found =>
      rw [run_eq_findSome?]
      cases hfirst : (p.reached place).findSome? next with
      | none =>
          have hnone := List.findSome?_eq_none_iff.mp hfirst only hmem
          rw [hnext] at hnone
          exact absurd hnone (by simp)
      | some found' =>
          obtain ⟨mid, hmid, hfound⟩ := List.exists_of_findSome?_eq_some hfirst
          rw [h mid hmid, hnext] at hfound
          exact hfound.symm

/-- Conversely, where every run goes on from one place, that place is the only one. -/
theorem eq_of_mem_reached {p : Pattern σ} {only mid : Place σ}
    (h : ∀ next, p.run place next = next only) (hmid : mid ∈ p.reached place) : mid = only := by
  classical
  by_contra hne
  have hnone : p.run place (fun here => if here = only then none else some here) = none := by
    rw [h, if_pos rfl]
  have hhere := run_eq_none_iff.mp hnone mid hmid
  rw [if_neg hne] at hhere
  exact absurd hhere (by simp)

/-! ### Repetitions of a pattern -/

/-- The body leads from the first place to the second, again and again and without a choice. -/
inductive Repeats (body : Pattern σ) : Place σ → Place σ → Prop
  | done {place : Place σ} : Repeats body place place
  | step {place mid last : Place σ} (run : ∀ next, body.run place next = next mid)
      (shorter : mid.rest.length < place.rest.length) (others : Repeats body mid last) :
      Repeats body place last

/-- A repetition goes on as long as its body leads on, where the rest succeeds there. -/
theorem run_star {body : Pattern σ} {last : Place σ} (h : Repeats body place last)
    (hstop : ∀ mid, ¬ mid ∈ body.reached last) (hnext : next last = some found) :
    (star body).run place next = some found := by
  have hiterate : ∀ ahead : Text, place.rest.length ≤ ahead.length →
      iterate (fun here after => body.run here after) ahead place next = some found := by
    induction h with
    | @done last =>
        intro ahead _
        cases ahead with
        | nil => exact hnext
        | cons c ahead =>
            rw [iterate, run_eq_none hstop]
            exact hnext
    | @step place mid last run shorter _ ih =>
        intro ahead hahead
        cases ahead with
        | nil =>
            rw [List.length_nil] at hahead
            omega
        | cons c ahead =>
            rw [List.length_cons] at hahead
            rw [iterate, run, ih hstop hnext ahead (by omega)]
  exact hiterate place.rest (Nat.le_refl _)

/-! ### Repetitions of one character -/

/-- A greedy repetition goes as far as it can, where the rest succeeds there. -/
theorem run_many_greedy {accepts : Char → Bool} {front rest : Text}
    (h : place.rest = front ++ rest) (hfront : ∀ c ∈ front, accepts c = true)
    (hstop : ∀ c ∈ rest.head?, accepts c = false)
    (hnext : next (place.past front rest) = some found) :
    (many .greedy accepts).run place next = some found := by
  show (place.reach .greedy accepts).findSome? next = some found
  induction front generalizing place with
  | nil =>
      rw [List.nil_append] at h
      rw [Place.past_nil h] at hnext
      rw [Place.reach_of_stop (by rw [h]; exact hstop)]
      simp [hnext]
  | cons c front ih =>
      obtain ⟨hc, hfront⟩ := List.forall_mem_cons.mp hfront
      rw [Place.reach_greedy_cons h hc, List.findSome?_append,
        ih rfl hfront (by rw [Place.past_past]; exact hnext)]
      rfl

/-- A lazy repetition goes as far as it has to: to the nearest place where the rest succeeds. -/
theorem run_many_lazy {accepts : Char → Bool} {front rest : Text}
    (h : place.rest = front ++ rest) (hfront : ∀ c ∈ front, accepts c = true)
    (hbefore : ∀ near far, front = near ++ far → far ≠ [] →
      next (place.past near (far ++ rest)) = none)
    (hnext : next (place.past front rest) = some found) :
    (many .lazy accepts).run place next = some found := by
  show (place.reach .lazy accepts).findSome? next = some found
  induction front generalizing place with
  | nil =>
      rw [List.nil_append] at h
      rw [Place.past_nil h] at hnext
      cases hrest : place.rest with
      | nil =>
          rw [Place.reach_of_stop (by simp [hrest])]
          simp [hnext]
      | cons c rest =>
          by_cases hc : accepts c = true
          · rw [Place.reach_lazy_cons hrest hc, List.findSome?_cons, hnext]
          · have hstop : ∀ d ∈ place.rest.head?, accepts d = false := by
              intro d hd
              obtain rfl : c = d := by simpa [hrest] using hd
              simpa using hc
            rw [Place.reach_of_stop hstop]
            simp [hnext]
  | cons c front ih =>
      obtain ⟨hc, hfront⟩ := List.forall_mem_cons.mp hfront
      have hhere : next place = none := by
        have hnone := hbefore [] (c :: front) rfl (List.cons_ne_nil c front)
        rwa [Place.past_nil h] at hnone
      rw [Place.reach_lazy_cons h hc, List.findSome?_cons, hhere]
      refine ih rfl hfront ?_ (by rw [Place.past_past]; exact hnext)
      intro near far hsplit hfar
      rw [Place.past_past]
      exact hbefore (c :: near) far (by rw [hsplit]; rfl) hfar

theorem run_atLeastOne {accepts : Char → Bool} {front rest : Text}
    (h : place.rest = front ++ rest) (hne : front ≠ []) (hfront : ∀ c ∈ front, accepts c = true)
    (hstop : ∀ c ∈ rest.head?, accepts c = false)
    (hnext : next (place.past front rest) = some found) :
    (atLeastOne accepts).run place next = some found := by
  obtain ⟨c, front, rfl⟩ := List.exists_cons_of_ne_nil hne
  obtain ⟨hc, hfront⟩ := List.forall_mem_cons.mp hfront
  unfold atLeastOne
  rw [run_seq, run_one h hc]
  exact run_many_greedy rfl hfront hstop (by rw [Place.past_past]; exact hnext)

/-! ### Words -/

/-- A word has no choice: it covers the text that spells it. -/
theorem run_keyword {word : String} {text rest : Text} (h : place.rest = text ++ rest)
    (hspells : Spells word text) :
    (keyword word).run place next = next (place.past text rest) := by
  unfold keyword
  unfold Spells at hspells
  generalize word.toList = letters at hspells ⊢
  induction hspells generalizing place with
  | nil => exact congrArg next (Place.past_nil h).symm
  | cons hc _ ih =>
      rw [List.map_cons, run_all_cons, run_one h hc, ih rfl, Place.past_past]
      rfl

theorem run_exactly {word : String} {rest : Text} (h : place.rest = word.toList ++ rest) :
    (exactly word).run place next = next (place.past word.toList rest) := by
  unfold exactly
  generalize word.toList = letters at h ⊢
  induction letters generalizing place with
  | nil => exact congrArg next (Place.past_nil h).symm
  | cons c letters ih =>
      rw [List.map_cons, run_all_cons, run_lit h, ih rfl, Place.past_past]
      rfl

/-! ### Noting and looking around -/

theorem run_noted (slot : σ) (p : Pattern σ) :
    (noted slot p).run place next
      = p.run place fun reached => next (Place.note slot place reached) := rfl

theorem run_notBehind {rejects : Char → Bool} (h : place.follows rejects = false) :
    (notBehind rejects).run place next = next place :=
  if_pos (by rw [h]; rfl)

theorem run_wordEdge (h : place.atWordEdge = true) :
    (wordEdge : Pattern σ).run place next = next place := if_pos h

theorem run_finish (h : place.atFinish = true) :
    (finish : Pattern σ).run place next = next place := if_pos h

theorem run_finish_of_nil (h : place.rest = []) :
    (finish : Pattern σ).run place next = next place :=
  run_finish (by simp [Place.atFinish, h])

end Diagrams.Pattern
