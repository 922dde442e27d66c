/-
Blanks between the parts of a pattern.

Blanks are passed over by a greedy repetition, so behind them the next part of a pattern meets the
first character that is none.  `Opens` says what that character has to be; a part that opens with
something else is passed over, whether blanks stand in front of it or not.
-/
import Diagrams.Proofs.Pattern.Run
import Diagrams.Proofs.Text.Cutting

namespace Diagrams.Pattern

variable {σ : Type} {place : Place σ} {next : Continuation σ} {found : Place σ}

theorem forall_blank_space : ∀ c ∈ [' '], isBlank c = true :=
  List.forall_mem_singleton.mpr (by decide)

/-! ### Passing over blanks -/

theorem run_spaces_space {c : Char} {rest : Text} (h : place.rest = ' ' :: c :: rest)
    (hc : isBlank c = false) (hnext : next (place.past [' '] (c :: rest)) = some found) :
    (spaces : Pattern σ).run place next = some found := by
  refine run_many_greedy h forall_blank_space (fun d hd => ?_) hnext
  obtain rfl : c = d := by simpa using hd
  exact hc

theorem run_spaces_of_stop (h : ∀ c ∈ place.rest.head?, isBlank c = false) :
    (spaces : Pattern σ).run place next = next place := by
  show (place.reach .greedy isBlank).findSome? next = next place
  rw [Place.reach_of_stop h]
  cases hnext : next place <;> simp [hnext]

theorem run_spaces_none {c : Char} {rest : Text} (h : place.rest = c :: rest)
    (hc : isBlank c = false) (hnext : next place = some found) :
    (spaces : Pattern σ).run place next = some found := by
  rw [run_spaces_of_stop, hnext]
  intro d hd
  obtain rfl : c = d := by simpa [h] using hd
  exact hc

theorem run_gap_space {rest : Text} (h : place.rest = ' ' :: rest)
    (hstop : ∀ c ∈ rest.head?, isBlank c = false)
    (hnext : next (place.past [' '] rest) = some found) :
    (gap : Pattern σ).run place next = some found :=
  run_atLeastOne h (List.cons_ne_nil ' ' []) forall_blank_space hstop hnext

/-! ### What a pattern opens with -/

/-- Where the pattern matches, the next character passes the test. -/
def Opens (test : Char → Bool) (p : Pattern σ) : Prop :=
  ∀ here mid, mid ∈ p.reached here → ∃ c ∈ here.rest.head?, test c = true

namespace Opens

variable {test : Char → Bool} {p : Pattern σ}

theorem lit (c : Char) : Opens (· == c) (Pattern.lit c : Pattern σ) := by
  intro here mid hmid
  obtain ⟨rest, hrest, -⟩ := mem_reached_lit.mp hmid
  exact ⟨c, by rw [hrest]; rfl, by simp⟩

theorem exactly {word : String} {c : Char} (h : word.toList.head? = some c) :
    Opens (· == c) (Pattern.exactly word : Pattern σ) := by
  intro here mid hmid
  obtain ⟨rest, hrest, -⟩ := mem_reached_exactly.mp hmid
  refine ⟨c, ?_, by simp⟩
  rw [hrest, List.head?_append, h]
  rfl

theorem atLeastOne : Opens test (Pattern.atLeastOne test : Pattern σ) := by
  intro here mid hmid
  obtain ⟨front, rest, hrest, hne, hfront, -⟩ := mem_reached_atLeastOne.mp hmid
  obtain ⟨c, front, rfl⟩ := List.exists_cons_of_ne_nil hne
  exact ⟨c, by rw [hrest]; rfl, hfront c List.mem_cons_self⟩

theorem noted {slot : σ} (h : Opens test p) : Opens test (Pattern.noted slot p) := by
  intro here mid hmid
  obtain ⟨mid', hmid', -⟩ := mem_reached_noted.mp hmid
  exact h here mid' hmid'

theorem all {ps : List (Pattern σ)} (h : Opens test p) : Opens test (Pattern.all (p :: ps)) := by
  intro here mid hmid
  obtain ⟨mid', hmid', -⟩ := mem_reached_all_cons.mp hmid
  exact h here mid' hmid'

/-- A pattern is passed over where another character comes. -/
theorem not_mem (h : Opens test p) (hstop : ∀ c ∈ place.rest.head?, test c = false)
    (mid : Place σ) : ¬ mid ∈ p.reached place := by
  intro hmid
  obtain ⟨c, hc, htest⟩ := h place mid hmid
  rw [hstop c hc] at htest
  exact Bool.noConfusion htest

/-- A pattern is passed over where another character comes behind the blanks. -/
theorem not_mem_spaces {c : Char} {ps : List (Pattern σ)} (h : Opens (· == c) p)
    (hc : isBlank c = false) (hstop : (place.rest.dropWhile isBlank).head? ≠ some c)
    (mid : Place σ) : ¬ mid ∈ (Pattern.all (spaces :: p :: ps)).reached place := by
  intro hmid
  obtain ⟨_, hspaces, hmid⟩ := mem_reached_all_cons.mp hmid
  obtain ⟨blanks, rest, hrest, hblank, rfl⟩ := mem_reached_many.mp hspaces
  obtain ⟨mid', hp, -⟩ := mem_reached_all_cons.mp hmid
  obtain ⟨d, hd, hpass⟩ := h _ _ hp
  obtain rfl : d = c := beq_iff_eq.mp hpass
  rw [Place.rest_past] at hd
  have hdrop : place.rest.dropWhile isBlank = rest := by
    rw [hrest]
    refine dropWhile_append_of_stop hblank fun e he => ?_
    obtain rfl : d = e := Option.mem_unique hd he
    exact hc
  rw [hdrop] at hstop
  exact hstop hd

end Opens

/-- Where a character does not come any more, nothing that wants it behind blanks matches. -/
theorem not_mem_reached_spaces_lit {c : Char} {ps : List (Pattern σ)} (h : c ∉ place.rest)
    (mid : Place σ) : ¬ mid ∈ (all (spaces :: lit c :: ps)).reached place := by
  intro hmid
  obtain ⟨_, hspaces, hmid⟩ := mem_reached_all_cons.mp hmid
  obtain ⟨blanks, rest, hrest, -, rfl⟩ := mem_reached_many.mp hspaces
  obtain ⟨_, hlit, -⟩ := mem_reached_all_cons.mp hmid
  obtain ⟨rest', hrest', -⟩ := mem_reached_lit.mp hlit
  rw [Place.rest_past] at hrest'
  refine h ?_
  rw [hrest, hrest']
  simp

/-- A word between blanks. -/
theorem mem_reached_gap_word {word : String} {ps : List (Pattern σ)} {mid : Place σ}
    (h : mid ∈ (all (gap :: exactly word :: gap :: ps)).reached place) :
    ∃ blanks c rest, place.rest = blanks ++ (word.toList ++ c :: rest) ∧ blanks ≠ [] ∧
      (∀ d ∈ blanks, isBlank d = true) ∧ isBlank c = true := by
  obtain ⟨_, hgap, h⟩ := mem_reached_all_cons.mp h
  obtain ⟨blanks, rest, hrest, hne, hblank, rfl⟩ := mem_reached_atLeastOne.mp hgap
  obtain ⟨_, hword, h⟩ := mem_reached_all_cons.mp h
  obtain ⟨rest', hrest', rfl⟩ := mem_reached_exactly.mp hword
  obtain ⟨_, hgap', -⟩ := mem_reached_all_cons.mp h
  obtain ⟨c, hc, hblank'⟩ := Opens.atLeastOne _ _ hgap'
  rw [Place.rest_past] at hrest' hc
  cases rest' with
  | nil => exact absurd hc (by simp)
  | cons d rest' =>
      obtain rfl : d = c := by simpa using hc
      exact ⟨blanks, d, rest', by rw [hrest, hrest'], hne, hblank, hblank'⟩

end Diagrams.Pattern
