/-
All the ways a pattern can go.

`Pattern.reached` lists the places a pattern leads to, best first.  Here that list is read as a set:
for every way to build a pattern, the places reached are told by the stretch of text that lies
between.  This is what a match that was found says about its text, and, read the other way round,
what has to be ruled out before a pattern can be said not to match.
-/
import Mathlib.Data.List.Forall2
import Diagrams.Proofs.Pattern.Place

namespace Diagrams.Pattern

variable {σ : Type}

/-- The text spells the word, its letters in either case. -/
def Spells (word : String) (text : Text) : Prop :=
  List.Forall₂ (fun letter c => matchesLetter letter c = true) word.toList text

instance (word : String) (text : Text) : Decidable (Spells word text) :=
  inferInstanceAs (Decidable (List.Forall₂ _ _ _))

theorem reached_all_cons (p : Pattern σ) (ps : List (Pattern σ)) (place : Place σ) :
    (all (p :: ps)).reached place = (p.reached place).flatMap (all ps).reached := by
  cases ps with
  | nil =>
      show p.reached place = (p.reached place).flatMap fun mid => [mid]
      simp
  | cons q ps => rfl

theorem reached_all_append (ps qs : List (Pattern σ)) (place : Place σ) :
    (all (ps ++ qs)).reached place = ((all ps).reached place).flatMap (all qs).reached := by
  induction ps generalizing place with
  | nil =>
      show (all qs).reached place = [place].flatMap (all qs).reached
      simp
  | cons p ps ih =>
      rw [List.cons_append, reached_all_cons, reached_all_cons, List.flatMap_assoc]
      exact congrArg (List.flatMap · (p.reached place)) (funext ih)

theorem reached_oneOf_cons (p : Pattern σ) (ps : List (Pattern σ)) (place : Place σ) :
    (oneOf (p :: ps)).reached place = p.reached place ++ (oneOf ps).reached place := by
  cases ps with
  | nil => simp [oneOf, reached]
  | cons q ps => rfl

variable {place place' : Place σ}

theorem mem_reached_one {accepts : Char → Bool} :
    place' ∈ (one accepts).reached place ↔
      ∃ c rest, place.rest = c :: rest ∧ accepts c = true ∧ place' = place.past [c] rest := by
  show place' ∈ (place.step? accepts).toList ↔ _
  rw [Option.mem_toList, Place.step?_eq_some_iff]

theorem mem_reached_lit {c : Char} :
    place' ∈ (lit c).reached place ↔
      ∃ rest, place.rest = c :: rest ∧ place' = place.past [c] rest := by
  unfold lit
  rw [mem_reached_one]
  constructor
  · rintro ⟨d, rest, hrest, hd, rfl⟩
    obtain rfl : d = c := by simpa using hd
    exact ⟨rest, hrest, rfl⟩
  · rintro ⟨rest, hrest, rfl⟩
    exact ⟨c, rest, hrest, by simp, rfl⟩

theorem mem_reached_seq {p q : Pattern σ} :
    place' ∈ (seq p q).reached place ↔ ∃ mid ∈ p.reached place, place' ∈ q.reached mid :=
  List.mem_flatMap

theorem mem_reached_all_nil : place' ∈ (all []).reached place ↔ place' = place :=
  List.mem_singleton

theorem mem_reached_all_cons {p : Pattern σ} {ps : List (Pattern σ)} :
    place' ∈ (all (p :: ps)).reached place ↔
      ∃ mid ∈ p.reached place, place' ∈ (all ps).reached mid := by
  rw [reached_all_cons, List.mem_flatMap]

theorem mem_reached_all_append {ps qs : List (Pattern σ)} :
    place' ∈ (all (ps ++ qs)).reached place ↔
      ∃ mid ∈ (all ps).reached place, place' ∈ (all qs).reached mid := by
  rw [reached_all_append, List.mem_flatMap]

theorem mem_reached_oneOf_nil : ¬ place' ∈ (oneOf []).reached place :=
  List.not_mem_nil

theorem mem_reached_oneOf_cons {p : Pattern σ} {ps : List (Pattern σ)} :
    place' ∈ (oneOf (p :: ps)).reached place ↔
      place' ∈ p.reached place ∨ place' ∈ (oneOf ps).reached place := by
  rw [reached_oneOf_cons, List.mem_append]

theorem mem_reached_alt {p q : Pattern σ} :
    place' ∈ (alt p q).reached place ↔ place' ∈ p.reached place ∨ place' ∈ q.reached place :=
  List.mem_append

theorem mem_reached_opt {p : Pattern σ} :
    place' ∈ (opt p).reached place ↔ place' ∈ p.reached place ∨ place' = place := by
  unfold opt
  rw [mem_reached_alt]
  exact or_congr_right List.mem_singleton

theorem mem_reached_many {greed : Greed} {accepts : Char → Bool} :
    place' ∈ (many greed accepts).reached place ↔
      ∃ front rest, place.rest = front ++ rest ∧ (∀ c ∈ front, accepts c = true) ∧
        place' = place.past front rest :=
  Place.mem_reach

theorem mem_reached_atLeastOne {accepts : Char → Bool} :
    place' ∈ (atLeastOne accepts).reached place ↔
      ∃ front rest, place.rest = front ++ rest ∧ front ≠ [] ∧ (∀ c ∈ front, accepts c = true) ∧
        place' = place.past front rest := by
  unfold atLeastOne
  rw [mem_reached_seq]
  constructor
  · rintro ⟨mid, hmid, hplace'⟩
    obtain ⟨c, rest, hrest, hc, rfl⟩ := mem_reached_one.mp hmid
    obtain ⟨front, rest', hrest', hfront, rfl⟩ := mem_reached_many.mp hplace'
    refine ⟨c :: front, rest', by rw [hrest]; exact congrArg _ hrest', by simp, ?_, by simp⟩
    exact List.forall_mem_cons.mpr ⟨hc, hfront⟩
  · rintro ⟨front, rest, hrest, hne, hfront, rfl⟩
    obtain ⟨c, front, rfl⟩ := List.exists_cons_of_ne_nil hne
    obtain ⟨hc, hfront⟩ := List.forall_mem_cons.mp hfront
    refine ⟨place.past [c] (front ++ rest), mem_reached_one.mpr ⟨c, _, hrest, hc, rfl⟩, ?_⟩
    exact mem_reached_many.mpr ⟨front, rest, rfl, hfront, by simp⟩

theorem mem_reached_noted {slot : σ} {p : Pattern σ} :
    place' ∈ (noted slot p).reached place ↔
      ∃ mid ∈ p.reached place, place' = Place.note slot place mid := by
  show place' ∈ (p.reached place).map _ ↔ _
  rw [List.mem_map]
  exact exists_congr fun mid => and_congr_right fun _ => eq_comm

theorem mem_reached_notAhead {p : Pattern σ} :
    place' ∈ (notAhead p).reached place ↔ p.reached place = [] ∧ place' = place := by
  show place' ∈ (if (p.reached place).isEmpty then [place] else []) ↔ _
  cases hp : p.reached place <;> simp

theorem mem_reached_notBehind {rejects : Char → Bool} :
    place' ∈ (notBehind rejects).reached place ↔
      place.follows rejects = false ∧ place' = place := by
  show place' ∈ (if place.follows rejects then [] else [place]) ↔ _
  cases place.follows rejects <;> simp

theorem mem_reached_wordEdge :
    place' ∈ (wordEdge : Pattern σ).reached place ↔ place.atWordEdge = true ∧ place' = place := by
  show place' ∈ (if place.atWordEdge then [place] else []) ↔ _
  cases place.atWordEdge <;> simp

theorem mem_reached_lineStart :
    place' ∈ (lineStart : Pattern σ).reached place ↔ place.atLineStart = true ∧ place' = place := by
  show place' ∈ (if place.atLineStart then [place] else []) ↔ _
  cases place.atLineStart <;> simp

theorem mem_reached_finish :
    place' ∈ (finish : Pattern σ).reached place ↔ place.atFinish = true ∧ place' = place := by
  show place' ∈ (if place.atFinish then [place] else []) ↔ _
  cases place.atFinish <;> simp

/-! ### Words -/

theorem mem_reached_letters {tests : List (Char → Bool)} :
    place' ∈ (all (tests.map one)).reached place ↔
      ∃ text rest, place.rest = text ++ rest ∧
        List.Forall₂ (fun test c => test c = true) tests text ∧ place' = place.past text rest := by
  induction tests generalizing place with
  | nil =>
      rw [List.map_nil, mem_reached_all_nil]
      constructor
      · rintro rfl
        exact ⟨[], _, rfl, .nil, (Place.past_nil rfl).symm⟩
      · rintro ⟨text, rest, hrest, htext, rfl⟩
        obtain rfl : text = [] := by cases htext; rfl
        exact Place.past_nil hrest
  | cons test tests ih =>
      rw [List.map_cons, mem_reached_all_cons]
      constructor
      · rintro ⟨mid, hmid, hplace'⟩
        obtain ⟨c, rest, hrest, hc, rfl⟩ := mem_reached_one.mp hmid
        obtain ⟨text, rest', hrest', htext, rfl⟩ := ih.mp hplace'
        exact ⟨c :: text, rest', by rw [hrest]; exact congrArg _ hrest', .cons hc htext, by simp⟩
      · rintro ⟨text, rest, hrest, htext, rfl⟩
        cases htext with
        | @cons _ c _ text hc htext =>
            refine ⟨place.past [c] (text ++ rest), mem_reached_one.mpr ⟨c, _, hrest, hc, rfl⟩, ?_⟩
            exact ih.mpr ⟨text, rest, rfl, htext, by simp⟩

theorem mem_reached_keyword {word : String} :
    place' ∈ (keyword word).reached place ↔
      ∃ text rest, place.rest = text ++ rest ∧ Spells word text ∧
        place' = place.past text rest := by
  have h := @mem_reached_letters σ place place' (word.toList.map fun letter => matchesLetter letter)
  rw [List.map_map] at h
  simp only [List.forall₂_map_left_iff] at h
  exact h

theorem forall₂_beq_iff {word text : Text} :
    List.Forall₂ (fun letter c => (c == letter) = true) word text ↔ text = word := by
  simp only [beq_iff_eq]
  constructor
  · intro h
    have hflip : List.Forall₂ (· = ·) text word := h.flip
    rwa [List.forall₂_eq_eq_eq] at hflip
  · rintro rfl
    exact List.forall₂_refl _

theorem mem_reached_exactly {word : String} :
    place' ∈ (exactly word).reached place ↔
      ∃ rest, place.rest = word.toList ++ rest ∧ place' = place.past word.toList rest := by
  have h := @mem_reached_letters σ place place' (word.toList.map fun letter c => c == letter)
  rw [List.map_map] at h
  simp only [List.forall₂_map_left_iff, forall₂_beq_iff] at h
  refine Iff.trans h ?_
  constructor
  · rintro ⟨text, rest, hrest, rfl, rfl⟩
    exact ⟨rest, hrest, rfl⟩
  · rintro ⟨rest, hrest, rfl⟩
    exact ⟨_, rest, hrest, rfl, rfl⟩

/-! ### Forward only -/

/-- The second place comes after the first, whatever was noted in between. -/
def Leads (place place' : Place σ) : Prop :=
  ∃ front, place.rest = front ++ place'.rest ∧ place'.before = front.getLast?.or place.before ∧
    place'.offset = place.offset + front.length

theorem Leads.refl (place : Place σ) : Leads place place := ⟨[], rfl, rfl, rfl⟩

theorem Leads.trans {place'' : Place σ} (h : Leads place place') (h' : Leads place' place'') :
    Leads place place'' := by
  obtain ⟨front, hrest, hbefore, hoffset⟩ := h
  obtain ⟨front', hrest', hbefore', hoffset'⟩ := h'
  refine ⟨front ++ front', ?_, ?_, ?_⟩
  · rw [hrest, hrest', List.append_assoc]
  · rw [hbefore', hbefore, List.getLast?_append, Option.or_assoc]
  · rw [hoffset', hoffset, List.length_append, Nat.add_assoc]

theorem leads_past {front rest : Text} (h : place.rest = front ++ rest) :
    Leads place (place.past front rest) := ⟨front, h, rfl, rfl⟩

/-- What every step of a repetition keeps holds of all places that it leads to. -/
theorem of_mem_iterated {P : Place σ → Prop} {step : Place σ → List (Place σ)}
    (hstep : ∀ here mid, P here → mid ∈ step here → P mid) (ahead : Text) (hplace : P place)
    (h : place' ∈ iterated step ahead place) : P place' := by
  induction ahead generalizing place with
  | nil =>
      obtain rfl : place' = place := by simpa [iterated] using h
      exact hplace
  | cons c ahead ih =>
      rw [iterated, List.mem_append, List.mem_flatMap, List.mem_singleton] at h
      rcases h with ⟨mid, hmid, hplace'⟩ | rfl
      · exact ih (hstep place mid hplace hmid) hplace'
      · exact hplace

/-- A pattern only leads forward. -/
theorem leads_of_mem_reached {p : Pattern σ} (h : place' ∈ p.reached place) :
    Leads place place' := by
  induction p generalizing place place' with
  | empty =>
      obtain rfl : place' = place := List.mem_singleton.mp h
      exact Leads.refl _
  | one accepts =>
      obtain ⟨c, rest, hrest, -, rfl⟩ := mem_reached_one.mp h
      exact leads_past hrest
  | seq p q ihp ihq =>
      obtain ⟨mid, hmid, hplace'⟩ := mem_reached_seq.mp h
      exact (ihp hmid).trans (ihq hplace')
  | alt p q ihp ihq =>
      rcases mem_reached_alt.mp h with hp | hq
      · exact ihp hp
      · exact ihq hq
  | many greed accepts =>
      obtain ⟨front, rest, hrest, -, rfl⟩ := mem_reached_many.mp h
      exact leads_past hrest
  | star body ih =>
      exact of_mem_iterated (P := Leads place) (fun _ _ hhere hmid => hhere.trans (ih hmid)) _
        (Leads.refl place) h
  | noted slot body ih =>
      obtain ⟨mid, hmid, rfl⟩ := mem_reached_noted.mp h
      have hlead : Leads place mid := ih hmid
      exact hlead
  | notAhead body ih => exact (mem_reached_notAhead.mp h).2 ▸ Leads.refl _
  | notBehind rejects => exact (mem_reached_notBehind.mp h).2 ▸ Leads.refl _
  | wordEdge => exact (mem_reached_wordEdge.mp h).2 ▸ Leads.refl _
  | lineStart => exact (mem_reached_lineStart.mp h).2 ▸ Leads.refl _
  | finish => exact (mem_reached_finish.mp h).2 ▸ Leads.refl _

/-- The first patterns of a sequence lead to a place from which the others go on. -/
theorem exists_leads_of_mem_reached_all {ps : List (Pattern σ)} (count : Nat)
    (h : place' ∈ (all ps).reached place) :
    ∃ mid, Leads place mid ∧ place' ∈ (all (ps.drop count)).reached mid := by
  induction count generalizing ps place with
  | zero => exact ⟨place, .refl place, h⟩
  | succ count ih =>
      cases ps with
      | nil => exact ⟨place, .refl place, h⟩
      | cons p ps =>
          obtain ⟨mid, hmid, hothers⟩ := mem_reached_all_cons.mp h
          obtain ⟨last, hlead, hlast⟩ := ih hothers
          exact ⟨last, (leads_of_mem_reached hmid).trans hlead, hlast⟩

/-! ### What a pattern notes -/

/-- Whether a pattern may note a stretch under the name. -/
def mayNote [DecidableEq σ] (slot : σ) : Pattern σ → Bool
  | seq first second => first.mayNote slot || second.mayNote slot
  | alt first second => first.mayNote slot || second.mayNote slot
  | star body => body.mayNote slot
  | noted other body => other = slot || body.mayNote slot
  | _ => false

section

variable [DecidableEq σ] {slot : σ}

/-- A pattern that notes nothing under a name leaves what was noted there. -/
theorem text?_of_mem_reached {p : Pattern σ} {first : Place σ} (hslot : p.mayNote slot = false)
    (h : place' ∈ p.reached place) :
    (Match.mk first place').text? slot = (Match.mk first place).text? slot := by
  induction p generalizing place place' with
  | empty =>
      obtain rfl : place' = place := List.mem_singleton.mp h
      rfl
  | one accepts =>
      obtain ⟨c, rest, -, -, rfl⟩ := mem_reached_one.mp h
      rw [Match.text?_past]
  | seq p q ihp ihq =>
      obtain ⟨hp, hq⟩ := Bool.or_eq_false_iff.mp hslot
      obtain ⟨mid, hmid, hplace'⟩ := mem_reached_seq.mp h
      exact (ihq hq hplace').trans (ihp hp hmid)
  | alt p q ihp ihq =>
      obtain ⟨hp, hq⟩ := Bool.or_eq_false_iff.mp hslot
      rcases mem_reached_alt.mp h with hmem | hmem
      · exact ihp hp hmem
      · exact ihq hq hmem
  | many greed accepts =>
      obtain ⟨front, rest, -, -, rfl⟩ := mem_reached_many.mp h
      rw [Match.text?_past]
  | star body ih =>
      have hstep : ∀ here mid : Place σ,
          (Match.mk first here).text? slot = (Match.mk first place).text? slot →
          mid ∈ body.reached here →
          (Match.mk first mid).text? slot = (Match.mk first place).text? slot :=
        fun _ _ hhere hmid => (ih hslot hmid).trans hhere
      exact of_mem_iterated hstep _ rfl h
  | noted other body ih =>
      obtain ⟨hother, hbody⟩ := Bool.or_eq_false_iff.mp hslot
      obtain ⟨mid, hmid, rfl⟩ := mem_reached_noted.mp h
      have hne : other ≠ slot := by simpa using hother
      have hnote : (Match.mk first (Place.note other place mid)).text? slot
          = (Match.mk first mid).text? slot := by
        simp [Match.text?, Place.note, hne]
      exact hnote.trans (ih hbody hmid)
  | notAhead body ih => rw [(mem_reached_notAhead.mp h).2]
  | notBehind rejects => rw [(mem_reached_notBehind.mp h).2]
  | wordEdge => rw [(mem_reached_wordEdge.mp h).2]
  | lineStart => rw [(mem_reached_lineStart.mp h).2]
  | finish => rw [(mem_reached_finish.mp h).2]

end

/-! ### From paths to runs -/

/-- What a run finds is one of the places it may reach, as the continuation sees it. -/
theorem exists_mem_of_run {p : Pattern σ} {next : Continuation σ} {found : Place σ}
    (h : p.run place next = some found) : ∃ mid ∈ p.reached place, next mid = some found := by
  rw [run_eq_findSome?] at h
  exact List.exists_of_findSome?_eq_some h

theorem run_eq_none_iff {p : Pattern σ} {next : Continuation σ} :
    p.run place next = none ↔ ∀ mid ∈ p.reached place, next mid = none := by
  rw [run_eq_findSome?, List.findSome?_eq_none_iff]

theorem mem_reached_of_run {p : Pattern σ} {found : Place σ} (h : p.run place some = some found) :
    found ∈ p.reached place := by
  obtain ⟨mid, hmid, heq⟩ := exists_mem_of_run h
  exact Option.some.inj heq ▸ hmid

theorem run_some_eq_none_iff {p : Pattern σ} :
    p.run place some = none ↔ ∀ mid, ¬ mid ∈ p.reached place := by
  rw [run_eq_none_iff]
  exact forall_congr' fun mid => by simp

/-- A pattern matches at the start of a text where it can go some way. -/
theorem matchStart?_eq_none_iff {p : Pattern σ} {text : Text} :
    p.matchStart? text = none ↔ ∀ mid, ¬ mid ∈ p.reached (.start text) := by
  unfold matchStart? matchAt?
  rw [Option.map_eq_none_iff, run_some_eq_none_iff]

theorem matchStart?_isSome_iff {p : Pattern σ} {text : Text} :
    (p.matchStart? text).isSome = true ↔ ∃ mid, mid ∈ p.reached (.start text) := by
  rw [← not_iff_not, Bool.not_eq_true, Option.isSome_eq_false_iff, Option.isNone_iff_eq_none,
    matchStart?_eq_none_iff, not_exists]

theorem mem_reached_of_matchStart? {p : Pattern σ} {text : Text} {found : Match σ}
    (h : p.matchStart? text = some found) :
    found.first = .start text ∧ found.last ∈ p.reached (.start text) := by
  obtain ⟨last, hlast, rfl⟩ := Option.map_eq_some_iff.mp h
  exact ⟨rfl, mem_reached_of_run hlast⟩

end Diagrams.Pattern
