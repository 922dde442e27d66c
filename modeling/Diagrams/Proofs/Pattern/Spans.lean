/-
What a pattern can cover, told without places.

A match goes from place to place, and in which order it tries them tells what it finds.  What it can
cover at all is told by the pattern, by a stretch, and by what stands on both sides of the stretch
(`Pattern.Spans`): a sequence covers two stretches one after the other, a choice what one of the
choices covers.  The places that a pattern reaches are those behind the stretches that it can cover
(`exists_mem_reached_iff`), so a text matches if it starts with such a stretch
(`matchStart?_isSome_iff_spans`).
-/
import Diagrams.Proofs.Pattern.Noted

namespace Diagrams.Pattern

variable {σ : Type} {place place' : Place σ} {p : Pattern σ} {before : Option Char}
    {front rest : Text}

/-- One stretch after the other, none of them empty. -/
inductive Repeated (covers : Option Char → Text → Text → Prop) : Option Char → Text → Text → Prop
  | done {before : Option Char} {rest : Text} : Repeated covers before [] rest
  | step {before : Option Char} {near far rest : Text} (nonempty : near ≠ [])
      (first : covers before near (far ++ rest))
        (others : Repeated covers (near.getLast?.or before) far rest) :
      Repeated covers before (near ++ far) rest

/-- Whether a pattern can cover a stretch, with the character in front of it and the text behind
it. -/
def Spans : Pattern σ → Option Char → Text → Text → Prop
  | empty, _, front, _ => front = []
  | one accepts, _, front, _ => ∃ c, accepts c = true ∧ front = [c]
  | seq first second, before, front, rest => ∃ near far, front = near ++ far ∧
      first.Spans before near (far ++ rest) ∧ second.Spans (near.getLast?.or before) far rest
  | alt first second, before, front, rest =>
      first.Spans before front rest ∨ second.Spans before front rest
  | many _ accepts, _, front, _ => ∀ c ∈ front, accepts c = true
  | star body, before, front, rest => Repeated body.Spans before front rest
  | noted _ body, before, front, rest => body.Spans before front rest
  | notAhead body, before, front, rest => front = [] ∧
      ∀ near far, rest = near ++ far → ¬ body.Spans before near far
  | notBehind rejects, before, front, _ => front = [] ∧ before.any rejects = false
  | wordEdge, before, front, rest => front = [] ∧
      before.any isWordChar ≠ rest.head?.any isWordChar
  | lineStart, before, front, _ => front = [] ∧ (before = none ∨ before = some '\n')
  | finish, _, front, rest => front = [] ∧ (rest = [] ∨ rest = ['\n'])

/-! ### Stretches and places -/

/-- The character in front of a place that a pattern reaches is told by the stretch up to it. -/
theorem Leads.before_eq (h : Leads place place') (hrest : place.rest = front ++ place'.rest) :
    place'.before = front.getLast?.or place.before := by
  obtain ⟨covered, hcovered, hbefore, -⟩ := h
  rw [hbefore, List.append_cancel_right (hcovered.symm.trans hrest)]

/-- A condition is met where the pattern covers nothing. -/
theorem exists_eq_and_iff {condition : Prop} (hrest : place.rest = front ++ rest) :
    (∃ place', (condition ∧ place' = place) ∧ place'.rest = rest) ↔ front = [] ∧ condition := by
  constructor
  · rintro ⟨_, ⟨hcondition, rfl⟩, hsame⟩
    exact ⟨List.append_left_eq_self.mp (hrest.symm.trans hsame), hcondition⟩
  · rintro ⟨rfl, hcondition⟩
    exact ⟨place, ⟨hcondition, rfl⟩, hrest⟩

section

variable {step : Place σ → List (Place σ)} {covers : Option Char → Text → Text → Prop}
  (hleads : ∀ {here mid : Place σ}, mid ∈ step here → Leads here mid)
  (hstep : ∀ {here : Place σ} {near far : Text}, here.rest = near ++ far →
    ((∃ mid ∈ step here, mid.rest = far) ↔ covers here.before near far))

include hleads hstep

/-- Steps that cover something lead over one such stretch after the other. -/
theorem repeated_of_mem_iterated (ahead : Text) (h : place' ∈ iterated step ahead place)
    (hrest : place.rest = front ++ place'.rest) :
    Repeated covers place.before front place'.rest := by
  induction ahead generalizing place front with
  | nil =>
      obtain rfl : place' = place := List.mem_singleton.mp h
      obtain rfl : front = [] := List.append_left_eq_self.mp hrest.symm
      exact .done
  | cons c ahead ih =>
      rw [iterated, List.mem_append, List.mem_flatMap, List.mem_singleton] at h
      rcases h with ⟨mid, hmid, hplace'⟩ | rfl
      · obtain ⟨near, hnear, hbefore, -⟩ := hleads hmid
        obtain ⟨far, hfar, -⟩ := of_mem_iterated (P := Leads mid)
          (fun here next hhere hnext => hhere.trans (hleads hnext)) ahead (.refl mid) hplace'
        have hothers := ih hplace' hfar
        obtain rfl : front = near ++ far :=
          List.append_cancel_right (by rw [← hrest, hnear, hfar, List.append_assoc])
        rw [hbefore] at hothers
        -- A step that covers nothing can be left out.
        by_cases hnil : near = []
        · subst hnil
          exact hothers
        · exact .step hnil ((hstep (by rw [hnear, hfar])).mp ⟨mid, hmid, hfar⟩) hothers
      · obtain rfl : front = [] := List.append_left_eq_self.mp hrest.symm
        exact .done

theorem exists_mem_iterated_of_repeated (ahead : Text) (h : Repeated covers before front rest)
    (hbefore : place.before = before) (hrest : place.rest = front ++ rest)
    (hahead : front.length ≤ ahead.length) :
    ∃ place' ∈ iterated step ahead place, place'.rest = rest := by
  induction h generalizing place ahead with
  | done => exact ⟨place, by cases ahead <;> simp [iterated], hrest⟩
  | @step before near far rest hne first others ih =>
      subst hbefore
      have hpos := List.length_pos_iff.mpr hne
      rw [List.length_append] at hahead
      cases ahead with
      | nil => exact absurd hahead (by simp only [List.length_nil]; omega)
      | cons c ahead =>
          rw [List.append_assoc] at hrest
          obtain ⟨mid, hmid, hfar⟩ := (hstep hrest).mpr first
          have hback : mid.before = near.getLast?.or place.before :=
            (hleads hmid).before_eq (hfar ▸ hrest)
          obtain ⟨place', hplace', hlast⟩ :=
            ih ahead hback hfar (by rw [List.length_cons] at hahead; omega)
          refine ⟨place', ?_, hlast⟩
          rw [iterated]
          exact List.mem_append_left _ (List.mem_flatMap.mpr ⟨mid, hmid, hplace'⟩)

end

/-- A pattern reaches the places behind the stretches that it can cover, and no others. -/
theorem exists_mem_reached_iff (hrest : place.rest = front ++ rest) :
    (∃ place' ∈ p.reached place, place'.rest = rest) ↔ p.Spans place.before front rest := by
  induction p generalizing place front rest with
  | empty =>
      simp only [reached, List.mem_singleton, Spans, exists_eq_left]
      constructor
      · exact fun hsame => List.append_left_eq_self.mp (hrest.symm.trans hsame)
      · rintro rfl
        exact hrest
  | one accepts =>
      constructor
      · rintro ⟨_, hplace', rfl⟩
        obtain ⟨c, rest, hsplit, hc, rfl⟩ := mem_reached_one.mp hplace'
        exact ⟨c, hc, List.append_cancel_right (hrest.symm.trans hsplit)⟩
      · rintro ⟨c, hc, rfl⟩
        exact ⟨place.past [c] rest, mem_reached_one.mpr ⟨c, rest, hrest, hc, rfl⟩, rfl⟩
  | seq p q ihp ihq =>
      constructor
      · rintro ⟨place', hplace', rfl⟩
        obtain ⟨mid, hmid, hlast⟩ := mem_reached_seq.mp hplace'
        obtain ⟨near, hnear, hbefore, -⟩ := leads_of_mem_reached hmid
        obtain ⟨far, hfar, -⟩ := leads_of_mem_reached hlast
        have hsplit : place.rest = near ++ (far ++ place'.rest) := by rw [hnear, hfar]
        refine ⟨near, far, ?_, (ihp hsplit).mp ⟨mid, hmid, hfar⟩, ?_⟩
        · exact List.append_cancel_right (by rw [← hrest, hsplit, List.append_assoc])
        · exact hbefore ▸ (ihq hfar).mp ⟨place', hlast, rfl⟩
      · rintro ⟨near, far, rfl, hp, hq⟩
        rw [List.append_assoc] at hrest
        obtain ⟨mid, hmid, hfar⟩ := (ihp hrest).mpr hp
        rw [← (leads_of_mem_reached hmid).before_eq (hfar ▸ hrest)] at hq
        obtain ⟨place', hplace', hlast⟩ := (ihq hfar).mpr hq
        exact ⟨place', mem_reached_seq.mpr ⟨mid, hmid, hplace'⟩, hlast⟩
  | alt p q ihp ihq =>
      simp only [mem_reached_alt, or_and_right, exists_or, ihp hrest, ihq hrest]
      rfl
  | many greed accepts =>
      constructor
      · rintro ⟨_, hplace', rfl⟩
        obtain ⟨covered, rest, hsplit, hcovered, rfl⟩ := mem_reached_many.mp hplace'
        obtain rfl : front = covered := List.append_cancel_right (hrest.symm.trans hsplit)
        exact hcovered
      · intro hfront
        exact ⟨place.past front rest, mem_reached_many.mpr ⟨front, rest, hrest, hfront, rfl⟩, rfl⟩
  | star body ih =>
      constructor
      · rintro ⟨place', hplace', rfl⟩
        exact repeated_of_mem_iterated leads_of_mem_reached ih _ hplace' hrest
      · intro h
        exact exists_mem_iterated_of_repeated leads_of_mem_reached ih _ h rfl hrest
          (by simp [hrest])
  | noted slot body ih =>
      rw [Spans, ← ih hrest]
      constructor
      · rintro ⟨_, hplace', hlast⟩
        obtain ⟨mid, hmid, rfl⟩ := mem_reached_noted.mp hplace'
        exact ⟨mid, hmid, hlast⟩
      · rintro ⟨mid, hmid, hlast⟩
        exact ⟨_, mem_reached_noted.mpr ⟨mid, hmid, rfl⟩, hlast⟩
  | notAhead body ih =>
      simp only [mem_reached_notAhead, exists_eq_and_iff hrest, Spans]
      refine and_congr_right fun hfront => ?_
      obtain rfl : place.rest = rest := by rw [hrest, hfront]; rfl
      rw [List.eq_nil_iff_forall_not_mem]
      constructor
      · intro hnone near far hsplit hspans
        obtain ⟨mid, hmid, -⟩ := (ih hsplit).mpr hspans
        exact hnone mid hmid
      · intro hnone mid hmid
        obtain ⟨near, hnear, -⟩ := leads_of_mem_reached hmid
        exact hnone near mid.rest hnear ((ih hnear).mp ⟨mid, hmid, rfl⟩)
  | notBehind rejects =>
      simp only [mem_reached_notBehind, exists_eq_and_iff hrest]
      rfl
  | wordEdge =>
      simp only [mem_reached_wordEdge, exists_eq_and_iff hrest, Spans]
      refine and_congr_right fun hfront => ?_
      obtain rfl : place.rest = rest := by rw [hrest, hfront]; rfl
      exact bne_iff_ne
  | lineStart =>
      simp only [mem_reached_lineStart, exists_eq_and_iff hrest, Spans]
      refine and_congr_right fun _ => ?_
      unfold Place.atLineStart
      cases place.before <;> simp
  | finish =>
      simp only [mem_reached_finish, exists_eq_and_iff hrest, Spans]
      refine and_congr_right fun hfront => ?_
      obtain rfl : place.rest = rest := by rw [hrest, hfront]; rfl
      simp [Place.atFinish]

/-- Behind a stretch that a pattern covers lies the place that it has reached. -/
theorem spans_of_mem_reached (h : place' ∈ p.reached place) :
    ∃ front, place.rest = front ++ place'.rest ∧
    place'.before = front.getLast?.or place.before ∧ p.Spans place.before front place'.rest := by
  obtain ⟨front, hrest, hbefore, -⟩ := leads_of_mem_reached h
  exact ⟨front, hrest, hbefore, (exists_mem_reached_iff hrest).mp ⟨place', h, rfl⟩⟩

/-- What a pattern notes under a name is a stretch that it can cover. -/
theorem spans_of_mem_reached_noted [DecidableEq σ] {slot : σ}
    (h : place' ∈ (noted slot p).reached place) (first : Place σ) :
    ∃ covered, place.rest = covered ++ place'.rest ∧
      place'.before = covered.getLast?.or place.before ∧ p.Spans place.before covered place'.rest ∧
      (Match.mk first place').text? slot = some covered := by
  obtain ⟨mid, hmid, rfl⟩ := mem_reached_noted.mp h
  obtain ⟨covered, hrest, hbefore, hoffset⟩ := leads_of_mem_reached hmid
  refine ⟨covered, hrest, hbefore, (exists_mem_reached_iff hrest).mp ⟨mid, hmid, rfl⟩, ?_⟩
  simp [Match.text?, Place.note, Stretch.text, hrest, hoffset]

/-- A character that the pattern has no test for is in no stretch that it covers. -/
theorem Spans.not_mem {c : Char} (h : p.Spans before front rest) (homits : p.omits c = true) :
    c ∉ front := by
  let place : Place σ := { before, rest := front ++ rest, offset := 0 }
  have hrest : place.rest = front ++ rest := rfl
  obtain ⟨mid, hmid, hlast⟩ := (exists_mem_reached_iff hrest).mpr h
  obtain ⟨covered, hcovered, -, hall⟩ := (coversOnly_of_omits homits).covers hmid
  obtain rfl : front = covered := List.append_cancel_right (hlast ▸ hcovered)
  intro hmem
  simpa using hall c hmem

/-- A text matches if it starts with a stretch that the pattern can cover. -/
theorem matchStart?_isSome_iff_spans {text : Text} : (p.matchStart? text).isSome = true ↔
    ∃ front rest, text = front ++ rest ∧ p.Spans none front rest := by
  rw [matchStart?_isSome_iff]
  constructor
  · rintro ⟨mid, hmid⟩
    obtain ⟨front, hrest, -, hspans⟩ := spans_of_mem_reached hmid
    exact ⟨front, mid.rest, hrest, hspans⟩
  · rintro ⟨front, rest, hrest, hspans⟩
    have hstart : (Place.start text : Place σ).rest = front ++ rest := hrest
    obtain ⟨mid, hmid, -⟩ := (exists_mem_reached_iff hstart).mpr hspans
    exact ⟨mid, hmid⟩

/-! ### Compound patterns -/

theorem spans_all_nil : (all [] : Pattern σ).Spans before front rest ↔ front = [] := Iff.rfl

theorem spans_all_cons {ps : List (Pattern σ)} : (all (p :: ps)).Spans before front rest ↔
    ∃ near far, front = near ++ far ∧ p.Spans before near (far ++ rest) ∧
      (all ps).Spans (near.getLast?.or before) far rest := by
  cases ps with
  | nil => simp [all, Spans]
  | cons q ps => rfl

theorem spans_all_append {ps qs : List (Pattern σ)} : (all (ps ++ qs)).Spans before front rest ↔
    ∃ near far, front = near ++ far ∧ (all ps).Spans before near (far ++ rest) ∧
      (all qs).Spans (near.getLast?.or before) far rest := by
  induction ps generalizing before front with
  | nil => simp [spans_all_nil]
  | cons p ps ih =>
      simp only [List.cons_append, spans_all_cons, ih]
      constructor
      · rintro ⟨first, _, rfl, hp, near, far, rfl, hps, hqs⟩
        refine ⟨first ++ near, far, by simp, ⟨first, near, rfl, by simpa using hp, hps⟩, ?_⟩
        simpa [List.getLast?_append, Option.or_assoc] using hqs
      · rintro ⟨_, far, rfl, ⟨first, near, rfl, hp, hps⟩, hqs⟩
        refine ⟨first, near ++ far, by simp, by simpa using hp, near, far, rfl, hps, ?_⟩
        simpa [List.getLast?_append, Option.or_assoc] using hqs

theorem spans_opt : (opt p).Spans before front rest ↔
    p.Spans before front rest ∨ front = [] := Iff.rfl

theorem spans_lit {c : Char} : (lit c : Pattern σ).Spans before front rest ↔ front = [c] := by
  simp [lit, Spans]

theorem spans_atLeastOne {accepts : Char → Bool} :
    (atLeastOne accepts : Pattern σ).Spans before front rest ↔
    front ≠ [] ∧ ∀ c ∈ front, accepts c = true := by
  constructor
  · rintro ⟨near, far, rfl, ⟨c, hc, rfl⟩, hfar⟩
    exact ⟨List.cons_ne_nil _ _, List.forall_mem_cons.mpr ⟨hc, hfar⟩⟩
  · rintro ⟨hne, hall⟩
    obtain ⟨c, front, rfl⟩ := List.exists_cons_of_ne_nil hne
    obtain ⟨hc, hfront⟩ := List.forall_mem_cons.mp hall
    exact ⟨[c], front, rfl, ⟨c, hc, rfl⟩, hfront⟩

theorem spans_exactly {word : String} :
    (exactly word : Pattern σ).Spans before front rest ↔ front = word.toList := by
  unfold exactly
  generalize word.toList = letters
  induction letters generalizing before front with
  | nil => exact spans_all_nil
  | cons c letters ih => simp [spans_all_cons, spans_lit, ih]

theorem spans_oneOf {ps : List (Pattern σ)} :
    (oneOf ps).Spans before front rest ↔ ∃ p ∈ ps, p.Spans before front rest := by
  induction ps with
  | nil =>
      refine iff_of_false ?_ (by simp)
      rintro ⟨-, hnone⟩
      exact hnone [] rest rfl rfl
  | cons p ps ih =>
      cases ps with
      | nil => simp [oneOf]
      | cons q ps =>
          rw [List.exists_mem_cons_iff, ← ih]
          rfl

end Diagrams.Pattern
