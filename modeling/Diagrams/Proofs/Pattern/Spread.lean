/-
Patterns do not count blanks.

Where a pattern meets blanks, it passes over all of them at once, and so it makes no difference to
it how many there are.  It is not quite as simple as that: in more blanks there are more places, a
pattern tries them too, and only what follows decides that it cannot stay there.  `Outlook` says
what is known about how a match goes on from a place, `spread` reads off a pattern what this means
for the places in front of it, and `Agree` says that two ways to go on have the same outcome at
places that belong together.  From this follows what a search finds in the two spellings of a text.
-/
import Diagrams.Proofs.Pattern.Padded

namespace Diagrams

open Padded

variable {σ : Type}

/-! ### How a match goes on -/

/-- What is known about how a match goes on from a place. -/
inductive Outlook
  /-- It does not in front of a filler or at the end of the text. -/
  | shut
  /-- It does not where only fillers are left. -/
  | dry
  /-- It does everywhere. -/
  | sure
  /-- Nothing. -/
  | free
  deriving DecidableEq

namespace Outlook

/-- The outlook is right. -/
def Holds (next : Pattern.Continuation σ) : Outlook → Prop
  | shut => ∀ place, (∀ c ∈ place.rest.head?, isFiller c = true) → next place = none
  | dry => ∀ place, (∀ c ∈ place.rest, isFiller c = true) → next place = none
  | sure => ∀ place, (next place).isSome = true
  | free => True

/-- The outlook from a place that may turn out to be the wrong one. -/
def doubted : Outlook → Outlook
  | shut => shut
  | dry => dry
  | _ => free

/-- The outlook if there are two ways to go on. -/
def either : Outlook → Outlook → Outlook
  | shut, shut => shut
  | shut, dry | dry, shut | dry, dry => dry
  | shut, sure | dry, sure | sure, _ => sure
  | _, _ => free

/-- Whether the match does not go on where only fillers are left. -/
def isDry (outlook : Outlook) : Bool := outlook == shut || outlook == dry

variable {next : Pattern.Continuation σ} {outlook : Outlook}

theorem Holds.shut_dry (h : shut.Holds next) : dry.Holds next := fun place hplace =>
  h place fun c hc => hplace c (List.mem_of_mem_head? hc)

theorem Holds.dry (h : outlook.Holds next) (hdry : outlook.isDry = true) : dry.Holds next := by
  cases outlook with
  | shut => exact h.shut_dry
  | dry => exact h
  | sure | free => exact absurd hdry (by decide)

end Outlook

/-- What is known about how a match goes on, and whether it makes no difference to it how far among
blanks it is. -/
structure Prospect where
  outlook : Outlook
  loose : Bool
  deriving DecidableEq

namespace Pattern

/-- What is known about how a match goes on from the places in front of a pattern, if enough is
known about the places behind it. -/
def spread : Pattern σ → Prospect → Option Prospect
  | empty, prospect => some prospect
  | one accepts, prospect =>
    if rejectsFillers accepts then some ⟨.shut, false⟩
    else if acceptsBlanks accepts && prospect.loose && prospect.outlook.isDry
      then some ⟨.dry, false⟩
    else none
  | seq first second, prospect => (second.spread prospect).bind first.spread
  | alt first second, prospect =>
    match first.spread prospect, second.spread prospect with
    | some here, some there => some ⟨here.outlook.either there.outlook, here.loose && there.loose⟩
    | _, _ => none
  | many .greedy accepts, prospect =>
    if rejectsFillers accepts then some ⟨prospect.outlook, false⟩
    else if acceptsBlanks accepts then
      match prospect.outlook with
      | .shut => some ⟨.dry, true⟩
      | .sure => some ⟨.sure, true⟩
      | _ => none
    else none
  | noted _ body, prospect => body.spread prospect
  | notAhead body, prospect =>
    if (body.spread ⟨.sure, true⟩).isSome then some ⟨prospect.outlook.doubted, false⟩ else none
  | wordEdge, prospect => some ⟨prospect.outlook.doubted, false⟩
  | _, _ => none

/-- What is known about how a match goes on from the start of a pattern. -/
def prospect? (p : Pattern σ) : Option Prospect := p.spread ⟨.sure, true⟩

end Pattern

/-- Two ways to go on that have the same outcome at places that belong together. -/
structure Agree (padded : Padded) (prospect : Prospect) (next next' : Pattern.Continuation σ) :
    Prop where
  flush : ∀ {near far place place'}, Flush padded near far place place' →
    Option.Rel (Meets padded) (next place) (next' place')
  loose : prospect.loose = true → ∀ {near far place place'}, Beside padded near far place place' →
    Option.Rel (Meets padded) (next place) (next' place')
  ending : prospect.outlook = .sure → ∀ {near far place place'},
    Beside padded near far place place' → tight far = [] →
    Option.Rel (Meets padded) (next place) (next' place')

namespace Pattern

variable {p : Pattern σ} {prospect prospect' : Prospect} {next next' : Continuation σ}
  {padded near far : Padded} {place place' : Place σ} {accepts : Char → Bool}

/-! ### One way to go on -/

theorem reach_greedy_of_accepts {c : Char} {rest : Text} (h : place.rest = c :: rest)
    (hc : accepts c = true) :
    (place.reach .greedy accepts).findSome? next
      = (((place.past [c] rest).reach .greedy accepts).findSome? next).or (next place) := by
  rw [Place.reach_greedy_cons h hc, List.findSome?_append]
  congr 1
  cases hnext : next place <;> simp [hnext]

theorem findSome?_reach_of_rejects (h : ∀ c ∈ place.rest.head?, accepts c = false) (greed : Greed) :
    (place.reach greed accepts).findSome? next = next place := by
  rw [Place.reach_of_stop h]
  cases hnext : next place <;> simp [hnext]

theorem run_alt (p q : Pattern σ) (place : Place σ) :
    (alt p q).run place next = (p.run place next).or (q.run place next) := by
  rw [run]
  cases p.run place next <;> rfl

/-- Where there is a way to go on everywhere, a repetition finds one. -/
theorem isSome_reach (h : Outlook.sure.Holds next) (greed : Greed) (place : Place σ) :
    ((place.reach greed accepts).findSome? next).isSome = true := by
  have hmem : place ∈ place.reach greed accepts :=
    Place.mem_reach.mpr ⟨[], place.rest, rfl, by simp, rfl⟩
  exact List.findSome?_isSome_iff.mpr ⟨place, hmem, h place⟩

theorem rest_subset_of_mem_reach {greed : Greed} (h : place' ∈ place.reach greed accepts) :
    ∀ c ∈ place'.rest, c ∈ place.rest := by
  obtain ⟨front, rest, hrest, -, rfl⟩ := Place.mem_reach.mp h
  exact fun c hc => hrest ▸ List.mem_append_right front hc

theorem step?_eq_none (h : ∀ c ∈ place.rest.head?, accepts c = false) :
    place.step? accepts = none := by
  unfold Place.step?
  cases hrest : place.rest with
  | nil => rfl
  | cons c rest => simp [h c (by rw [hrest]; rfl)]

end Pattern

namespace Outlook.Holds

open Pattern

variable {next : Continuation σ} {accepts : Char → Bool} {outlook : Outlook}

theorem either {first second : Continuation σ} {here there : Outlook}
    (hhere : here.Holds first) (hthere : there.Holds second) :
    (here.either there).Holds fun place => (first place).or (second place) := by
  have hnone : here.isDry = true → there.isDry = true → Outlook.dry.Holds fun place =>
      (first place).or (second place) := fun hfirst hsecond place hplace => by
    simp only [hhere.dry hfirst place hplace, hthere.dry hsecond place hplace, Option.or_none]
  cases here <;> cases there
  case shut.shut =>
    exact fun place hplace => by
      simp only [hhere place hplace, hthere place hplace, Option.or_none]
  case shut.dry | dry.shut | dry.dry => exact hnone rfl rfl
  case shut.sure | dry.sure => exact fun place => by simp [hthere place]
  case sure.shut | sure.dry | sure.sure | sure.free => exact fun place => by simp [hhere place]
  all_goals trivial

theorem guarded (h : outlook.Holds next) (holds : Place σ → Bool) :
    outlook.doubted.Holds fun place => guarded (holds place) place next := by
  have hnone : ∀ place, next place = none → Pattern.guarded (holds place) place next = none := by
    intro place hplace
    unfold Pattern.guarded
    rw [hplace, ite_self]
  cases outlook with
  | shut => exact fun place hplace => hnone place (h place hplace)
  | dry => exact fun place hplace => hnone place (h place hplace)
  | sure | free => trivial

theorem reach_of_rejects (h : outlook.Holds next)
    (hrejects : rejectsFillers accepts = true) :
    outlook.Holds fun place => (place.reach .greedy accepts).findSome? next := by
  have hself : ∀ place : Place σ, (∀ c ∈ place.rest.head?, isFiller c = true) →
      (place.reach .greedy accepts).findSome? next = next place := fun place hplace =>
    findSome?_reach_of_rejects (fun c hc =>
      eq_false_of_rejectsFillers hrejects (hplace c hc)) .greedy
  cases outlook with
  | shut => exact fun place hplace => by simp only [hself place hplace, h place hplace]
  | dry =>
      intro place hplace
      simp only [hself place fun c hc => hplace c (List.mem_of_mem_head? hc), h place hplace]
  | sure => exact Pattern.isSome_reach h .greedy
  | free => trivial

theorem noted (h : outlook.Holds next) (slot : σ) (start : Place σ) :
    outlook.Holds fun place => next (.note slot start place) := by
  cases outlook with
  | shut | dry => exact fun place hplace => h (.note slot start place) hplace
  | sure => exact fun place => h (.note slot start place)
  | free => trivial

/-- Where a match ends in front of fillers, so does a repetition where only fillers are left. -/
theorem reach_of_shut (h : Outlook.shut.Holds next) (greed : Greed) :
    Outlook.dry.Holds fun place : Place σ => (place.reach greed accepts).findSome? next := by
  intro place hplace
  refine List.findSome?_eq_none_iff.mpr fun mid hmid => h mid fun c hc => ?_
  exact hplace c (rest_subset_of_mem_reach hmid c (List.mem_of_mem_head? hc))

end Outlook.Holds

namespace Pattern

variable {p : Pattern σ} {prospect prospect' : Prospect} {next next' : Continuation σ}
  {padded near far : Padded} {place place' : Place σ} {accepts : Char → Bool}

/-- **The outlook that is read off a pattern is right.** -/
theorem holds_run (h : p.spread prospect = some prospect') (hnext : prospect.outlook.Holds next) :
    prospect'.outlook.Holds fun place => p.run place next := by
  induction p generalizing prospect prospect' next with
  | empty =>
      obtain rfl := Option.some.inj h
      exact hnext
  | one accepts =>
      unfold spread at h
      split at h
      · rename_i hrejects
        obtain rfl := Option.some.inj h
        intro place hplace
        simp only [run, step?_eq_none fun c hc => eq_false_of_rejectsFillers hrejects (hplace c hc)]
      · split at h
        · rename_i hloose
          obtain rfl := Option.some.inj h
          have hdry := hnext.dry (Bool.and_eq_true_iff.mp hloose).2
          intro place hplace
          cases hstep : place.step? accepts with
          | none => simp only [run, hstep]
          | some mid =>
              obtain ⟨c, rest, hrest, -, rfl⟩ := (Place.step?_eq_some_iff ..).mp hstep
              simp only [run, hstep]
              exact hdry _ fun d hd => hplace d (by rw [hrest]; exact List.mem_cons_of_mem c hd)
        · cases h
  | seq first second ih₁ ih₂ =>
      obtain ⟨mid, hmid, hfirst⟩ := Option.bind_eq_some_iff.mp h
      exact ih₁ hfirst (ih₂ hmid hnext)
  | alt first second ih₁ ih₂ =>
      unfold spread at h
      split at h
      · rename_i here there hhere hthere
        obtain rfl := Option.some.inj h
        have hboth := (ih₁ hhere hnext).either (ih₂ hthere hnext)
        simpa only [run_alt] using hboth
      · cases h
  | many greed accepts =>
      cases greed with
      | lazy => cases h
      | greedy =>
          unfold spread at h
          split at h
          · rename_i hrejects
            obtain rfl := Option.some.inj h
            exact hnext.reach_of_rejects hrejects
          · split at h
            · obtain ⟨outlook, loose⟩ := prospect
              cases outlook with
              | shut =>
                  obtain rfl := Option.some.inj h
                  exact hnext.reach_of_shut .greedy
              | sure =>
                  obtain rfl := Option.some.inj h
                  exact isSome_reach hnext .greedy
              | dry | free => cases h
            · cases h
  | star body => cases h
  | noted slot body ih =>
      cases hprospect : prospect'.outlook with
      | shut | dry =>
          intro place hplace
          have hbody := ih h (hnext.noted slot place)
          rw [hprospect] at hbody
          exact hbody place hplace
      | sure =>
          intro place
          have hbody := ih h (hnext.noted slot place)
          rw [hprospect] at hbody
          exact hbody place
      | free => trivial
  | notAhead body ih =>
      unfold spread at h
      split at h
      · obtain rfl := Option.some.inj h
        exact hnext.guarded fun place => (body.run place some).isNone
      · cases h
  | notBehind rejects => cases h
  | wordEdge =>
      obtain rfl := Option.some.inj h
      exact hnext.guarded Place.atWordEdge
  | lineStart => cases h
  | finish => cases h

/-! ### Two ways to go on -/

theorem rel_or {α β : Type} {R : α → β → Prop} {a a' : Option α} {b b' : Option β}
    (h : Option.Rel R a b) (h' : Option.Rel R a' b') : Option.Rel R (a.or a') (b.or b') := by
  cases h with
  | none => exact h'
  | some hab => exact .some hab

theorem or_eq_left {α : Type} {a b : Option α} (h : a.isSome = true ∨ b = none) : a.or b = a := by
  rcases h with h | rfl
  · exact Option.or_of_isSome h
  · exact Option.or_none

/-- A repetition that takes the filler in front of it is decided behind it, if the match goes on
nowhere in front of fillers, or goes on everywhere. -/
theorem findSome?_reach_of_filler {outlook : Outlook} {c : Char} {rest : Text}
    (houtlook : outlook = .shut ∨ outlook = .sure) (hholds : outlook.Holds next)
    (hrest : place.rest = c :: rest) (hfiller : isFiller c = true) (hc : accepts c = true) :
    (place.reach .greedy accepts).findSome? next
      = ((place.past [c] rest).reach .greedy accepts).findSome? next := by
  rw [reach_greedy_of_accepts hrest hc]
  refine or_eq_left ?_
  rcases houtlook with rfl | rfl
  · refine .inr (hholds place fun d hd => ?_)
    obtain rfl : c = d := by simpa [hrest] using hd
    exact hfiller
  · exact .inl (isSome_reach hholds ..)

variable (hpadded : Sound padded)

include hpadded

/-- A repetition that stops in front of fillers goes through the same places on both sides. -/
theorem reach_of_flush (hrejects : rejectsFillers accepts = true)
    (hnext : ∀ {near far place place'}, Flush padded near far place place' →
      Option.Rel (Meets padded) (next place) (next' place'))
    (h : Flush padded near far place place') :
    Option.Rel (Meets padded) ((place.reach .greedy accepts).findSome? next)
      ((place'.reach .greedy accepts).findSome? next') := by
  have hrejected : ∀ c, isFiller c = true → accepts c = false := fun c =>
    eq_false_of_rejectsFillers hrejects
  have hstop : ∀ {near far place place'}, Flush padded near far place place' →
      (∀ c ∈ place.rest.head?, accepts c = false) → (∀ c ∈ place'.rest.head?, accepts c = false) →
      Option.Rel (Meets padded) ((place.reach .greedy accepts).findSome? next)
        ((place'.reach .greedy accepts).findSome? next') := by
    intro near far place place' h hplace hplace'
    rw [findSome?_reach_of_rejects hplace, findSome?_reach_of_rejects hplace']
    exact hnext h
  induction far generalizing near place place' with
  | nil => exact hstop h (by simp [h.rest]) (by simp [h.rest'])
  | cons item far ih =>
      rcases h.next_cases hpadded with
        ⟨-, hrest, hrest'⟩ | ⟨c, d, behind, hfar, hmem, hrest, hrest'⟩
      · exact hstop h (by simp [hrest]) fun c hc =>
          hrejected c (hrest' c (List.mem_of_mem_head? hc))
      · obtain ⟨rfl, rfl⟩ := List.cons.inj hfar
        have hsame : accepts c = accepts d :=
          hpadded.accepts_eq hmem fun e he => hrejected e (isFiller_of_isBlank he)
        by_cases hc : accepts c = true
        · have hblank : isBlank c = false := isBlank_eq_false_of_rejectsFillers hrejects hc
          rw [reach_greedy_of_accepts hrest hc, reach_greedy_of_accepts hrest' (hsame ▸ hc)]
          exact rel_or (ih (h.own hpadded hblank)) (hnext h)
        · refine hstop h ?_ ?_
          · simpa [hrest] using hc
          · simpa [hrest', ← hsame] using hc

/-- A repetition over blanks ends behind them on both sides, unless the match goes on everywhere;
then it goes on from there too. -/
theorem reach_of_blanks (haccepts : acceptsBlanks accepts = true)
    (hprospect : prospect.outlook = .shut ∨ prospect.outlook = .sure)
    (hholds : prospect.outlook.Holds next) (hholds' : prospect.outlook.Holds next')
    (hnext : Agree padded prospect next next') (h : Beside padded near far place place') :
    Option.Rel (Meets padded) ((place.reach .greedy accepts).findSome? next)
      ((place'.reach .greedy accepts).findSome? next') := by
  have haccepted : ∀ c, isBlank c = true → accepts c = true :=
    fun c => eq_true_of_acceptsBlanks haccepts
  have hending : ∀ {near far place place'}, Beside padded near far place place' → tight far = [] →
      Option.Rel (Meets padded) (next place) (next' place') := by
    intro near far place place' h hfar
    rcases hprospect with hshut | hsure
    · rw [hshut] at hholds hholds'
      have hfillers := h.isFiller_of_rest hpadded hfar
      rw [hholds place (by simp [h.rest, hfar]),
        hholds' place' fun c hc => hfillers c (List.mem_of_mem_head? hc)]
      exact .none
    · exact hnext.ending hsure h hfar
  induction far generalizing near place place' with
  | nil =>
      rw [findSome?_reach_of_rejects (by simp [h.rest]),
        findSome?_reach_of_rejects (by simp [h.rest'])]
      exact hending h rfl
  | cons item far ih =>
      obtain ⟨_ | c, d⟩ := item
      · have hfiller : isFiller d = true := (h.split ▸ hpadded : Sound _).isFiller_of_added
        by_cases hd : accepts d = true
        · rw [findSome?_reach_of_filler hprospect hholds' h.rest' hfiller hd]
          exact ih h.added
        · have hfar : tight far = [] := by
            by_contra hfar
            exact hd (haccepted d ((h.split ▸ hpadded : Sound _).of_added hfar).1)
          have hd' : accepts d = false := by simpa using hd
          rw [findSome?_reach_of_rejects (by simp [h.rest, hfar]),
            findSome?_reach_of_rejects (by simp [h.rest', hd'])]
          exact hending h hfar
      · have hmem : (some c, d) ∈ padded := by simp [h.split]
        have hsame : accepts c = accepts d := hpadded.accepts_eq hmem haccepted
        by_cases hc : accepts c = true
        · by_cases hblank : isBlank c = true
          · have hblank' : isBlank d = true := hpadded.isBlank_eq hmem ▸ hblank
            rw [findSome?_reach_of_filler hprospect hholds h.rest (isFiller_of_isBlank hblank) hc,
              findSome?_reach_of_filler hprospect hholds' h.rest'
                (isFiller_of_isBlank hblank') (hsame ▸ hc)]
            exact ih h.own
          · rw [reach_greedy_of_accepts h.rest hc, reach_greedy_of_accepts h.rest' (hsame ▸ hc)]
            exact rel_or (ih h.own) (hnext.flush (h.flush hpadded))
        · have hc' : accepts c = false := by simpa using hc
          rw [findSome?_reach_of_rejects (by simp [h.rest, hc']),
            findSome?_reach_of_rejects (by simp [h.rest', ← hsame, hc'])]
          exact hnext.flush (h.flush hpadded)

omit hpadded in
/-- Every match ends somewhere in the text. -/
theorem agree_some : Agree padded ⟨.sure, true⟩ (some : Continuation σ) some where
  flush := fun h => .some h.toBeside.meets
  loose := fun _ _ _ _ _ h => .some h.meets
  ending := fun _ _ _ _ _ h _ => .some h.meets

omit hpadded in
theorem agree_guarded {holds holds' : Place σ → Bool} (h : Agree padded prospect next next')
    (hsame : ∀ {near far place place'}, Flush padded near far place place' →
      holds place = holds' place') :
    Agree padded ⟨prospect.outlook.doubted, false⟩ (fun place => guarded (holds place) place next)
      (fun place => guarded (holds' place) place next') where
  flush := fun hflush => by
    unfold guarded
    rw [hsame hflush]
    split
    · exact h.flush hflush
    · exact .none
  loose := fun hloose => absurd hloose Bool.false_ne_true
  ending := fun hsure => by
    cases houtlook : prospect.outlook <;> rw [houtlook] at hsure <;> cases hsure

omit hpadded in
theorem run_one_eq_none (h : ∀ c ∈ place.rest.head?, accepts c = false) :
    (one accepts).run place next = none := by
  simp only [run, step?_eq_none h]

theorem agree_one_of_rejects (hrejects : rejectsFillers accepts = true)
    (hnext : Agree padded prospect next next') (h : Flush padded near far place place') :
    Option.Rel (Meets padded) ((one accepts).run place next) ((one accepts).run place' next') := by
  have hrejected : ∀ c, isFiller c = true → accepts c = false := fun c =>
    eq_false_of_rejectsFillers hrejects
  rcases h.next_cases hpadded with ⟨-, hrest, hrest'⟩ | ⟨c, d, behind, rfl, hmem, hrest, hrest'⟩
  · rw [run_one_eq_none (by simp [hrest]),
      run_one_eq_none fun c hc => hrejected c (hrest' c (List.mem_of_mem_head? hc))]
    exact .none
  · have hsame : accepts c = accepts d :=
      hpadded.accepts_eq hmem fun e he => hrejected e (isFiller_of_isBlank he)
    by_cases hc : accepts c = true
    · have hblank : isBlank c = false := isBlank_eq_false_of_rejectsFillers hrejects hc
      rw [run_one hrest hc, run_one hrest' (hsame ▸ hc)]
      exact hnext.flush (h.own hpadded hblank)
    · rw [run_one_eq_none (by simpa [hrest] using hc),
        run_one_eq_none (by simpa [hrest', ← hsame] using hc)]
      exact .none

theorem agree_one_of_accepts (haccepts : acceptsBlanks accepts = true)
    (hdry : Outlook.dry.Holds next')
    (hnext : ∀ {near far place place'}, Beside padded near far place place' →
      Option.Rel (Meets padded) (next place) (next' place'))
    (h : Flush padded near far place place') :
    Option.Rel (Meets padded) ((one accepts).run place next) ((one accepts).run place' next') := by
  rcases h.next_cases hpadded with ⟨-, hrest, hrest'⟩ | ⟨c, d, behind, rfl, hmem, hrest, hrest'⟩
  · have hnone : (one accepts).run place' next' = none := by
      refine run_eq_none_iff.mpr fun mid hmid => ?_
      obtain ⟨c, rest, hplace, -, rfl⟩ := mem_reached_one.mp hmid
      exact hdry _ fun d hd => hrest' d (by rw [hplace]; exact List.mem_cons_of_mem c hd)
    rw [run_one_eq_none (by simp [hrest]), hnone]
    exact .none
  · have hsame : accepts c = accepts d :=
      hpadded.accepts_eq hmem fun e he => eq_true_of_acceptsBlanks haccepts he
    by_cases hc : accepts c = true
    · rw [run_one hrest hc, run_one hrest' (hsame ▸ hc)]
      exact hnext h.toBeside.own
    · rw [run_one_eq_none (by simpa [hrest] using hc),
        run_one_eq_none (by simpa [hrest', ← hsame] using hc)]
      exact .none

theorem agree_many_of_rejects (hrejects : rejectsFillers accepts = true)
    (hnext : Agree padded prospect next next') :
    Agree padded ⟨prospect.outlook, false⟩ (fun place => (many .greedy accepts).run place next)
      (fun place => (many .greedy accepts).run place next') where
  flush := fun hflush => reach_of_flush hpadded hrejects hnext.flush hflush
  loose := fun hloose => absurd hloose Bool.false_ne_true
  ending := fun hsure near far place place' hplaces hfar => by
    have hrejected : ∀ c, isFiller c = true → accepts c = false := fun c =>
      eq_false_of_rejectsFillers hrejects
    have hfillers := hplaces.isFiller_of_rest hpadded hfar
    show Option.Rel _ ((place.reach .greedy accepts).findSome? next)
      ((place'.reach .greedy accepts).findSome? next')
    rw [findSome?_reach_of_rejects (by simp [hplaces.rest, hfar]),
      findSome?_reach_of_rejects fun c hc => hrejected c (hfillers c (List.mem_of_mem_head? hc))]
    exact hnext.ending hsure hplaces hfar

theorem agree_many_of_blanks (haccepts : acceptsBlanks accepts = true)
    (hprospect : prospect.outlook = .shut ∨ prospect.outlook = .sure)
    (hholds : prospect.outlook.Holds next) (hholds' : prospect.outlook.Holds next')
    (hnext : Agree padded prospect next next') (outlook : Outlook) :
    Agree padded ⟨outlook, true⟩ (fun place => (many .greedy accepts).run place next)
      (fun place => (many .greedy accepts).run place next') := by
  have hreach : ∀ {near far place place'}, Beside padded near far place place' →
      Option.Rel (Meets padded) ((many .greedy accepts).run place next)
        ((many .greedy accepts).run place' next') := fun hplaces =>
    reach_of_blanks hpadded haccepts hprospect hholds hholds' hnext hplaces
  exact ⟨fun hflush => hreach hflush.toBeside, fun _ _ _ _ _ => hreach,
    fun _ _ _ _ _ hplaces _ => hreach hplaces⟩

theorem agree_either {here there : Prospect} {first first' second second' : Continuation σ}
    (hholds : here.outlook.Holds first) (hholds' : here.outlook.Holds first')
    (hhere : Agree padded here first first') (hthere : Agree padded there second second') :
    Agree padded ⟨here.outlook.either there.outlook, here.loose && there.loose⟩
      (fun place => (first place).or (second place))
      (fun place => (first' place).or (second' place)) where
  flush := fun hflush => rel_or (hhere.flush hflush) (hthere.flush hflush)
  loose := fun hloose _ _ _ _ hplaces => by
    obtain ⟨hlooseHere, hlooseThere⟩ := Bool.and_eq_true_iff.mp hloose
    exact rel_or (hhere.loose hlooseHere hplaces) (hthere.loose hlooseThere hplaces)
  ending := fun hsure near far place place' hplaces hfar => by
    have hfillers := hplaces.isFiller_of_rest hpadded hfar
    have hdry : here.outlook.isDry = true → first place = none ∧ first' place' = none := fun hdry =>
      ⟨hholds.dry hdry place (by simp [hplaces.rest, hfar]), hholds'.dry hdry place' hfillers⟩
    obtain ⟨here, hereLoose⟩ := here
    obtain ⟨there, thereLoose⟩ := there
    cases here with
    | sure =>
        have hfirst : (first place).isSome = true := hholds place
        have hfirst' : (first' place').isSome = true := hholds' place'
        rw [Option.or_of_isSome hfirst, Option.or_of_isSome hfirst']
        exact hhere.ending rfl hplaces hfar
    | shut | dry =>
        obtain ⟨hnone, hnone'⟩ := hdry rfl
        rw [hnone, hnone', Option.none_or, Option.none_or]
        exact hthere.ending (by cases there <;> first | rfl | cases hsure) hplaces hfar
    | free => cases there <;> cases hsure

/-- **From places that belong together a pattern has the same outcome in both spellings.** -/
theorem agree_run (h : p.spread prospect = some prospect') (hholds : prospect.outlook.Holds next)
    (hholds' : prospect.outlook.Holds next') (hnext : Agree padded prospect next next') :
    Agree padded prospect' (fun place => p.run place next) (fun place => p.run place next') := by
  induction p generalizing prospect prospect' next next' with
  | empty =>
      obtain rfl := Option.some.inj h
      exact hnext
  | one accepts =>
      unfold spread at h
      split at h
      · rename_i hrejects
        obtain rfl := Option.some.inj h
        refine ⟨fun hflush => agree_one_of_rejects hpadded hrejects hnext hflush, ?_, ?_⟩
        · exact fun hloose => absurd hloose Bool.false_ne_true
        · exact fun hsure => Outlook.noConfusion hsure
      · split at h
        · rename_i hloose
          obtain ⟨hrest, hdry⟩ := Bool.and_eq_true_iff.mp hloose
          obtain ⟨haccepts, hloose⟩ := Bool.and_eq_true_iff.mp hrest
          obtain rfl := Option.some.inj h
          refine ⟨fun hflush => agree_one_of_accepts hpadded haccepts (hholds'.dry hdry)
            (hnext.loose hloose) hflush, ?_, ?_⟩
          · exact fun hloose => absurd hloose Bool.false_ne_true
          · exact fun hsure => Outlook.noConfusion hsure
        · cases h
  | seq first second ih₁ ih₂ =>
      obtain ⟨mid, hmid, hfirst⟩ := Option.bind_eq_some_iff.mp h
      exact ih₁ hfirst (holds_run hmid hholds) (holds_run hmid hholds')
        (ih₂ hmid hholds hholds' hnext)
  | alt first second ih₁ ih₂ =>
      unfold spread at h
      split at h
      · rename_i here there hhere hthere
        obtain rfl := Option.some.inj h
        have hboth := agree_either hpadded (holds_run hhere hholds) (holds_run hhere hholds')
          (ih₁ hhere hholds hholds' hnext) (ih₂ hthere hholds hholds' hnext)
        simpa only [run_alt] using hboth
      · cases h
  | many greed accepts =>
      cases greed with
      | lazy => cases h
      | greedy =>
          unfold spread at h
          split at h
          · rename_i hrejects
            obtain rfl := Option.some.inj h
            exact agree_many_of_rejects hpadded hrejects hnext
          · split at h
            · rename_i haccepts
              obtain ⟨outlook, loose⟩ := prospect
              cases outlook with
              | shut | sure =>
                  obtain rfl := Option.some.inj h
                  exact agree_many_of_blanks hpadded haccepts (by simp) hholds hholds' hnext _
              | dry | free => cases h
            · cases h
  | star body => cases h
  | noted slot body ih =>
      have hnoted : ∀ {near far start start'}, Beside padded near far start start' →
          Agree padded prospect (fun place => next (.note slot start place))
            (fun place => next' (.note slot start' place)) := fun hstart =>
        ⟨fun hflush => hnext.flush (hflush.note slot hstart),
          fun hloose _ _ _ _ hplaces => hnext.loose hloose (hstart.note slot hplaces),
          fun hsure _ _ _ _ hplaces hfar => hnext.ending hsure (hstart.note slot hplaces) hfar⟩
      have hbody : ∀ {near far start start'}, Beside padded near far start start' →
          Agree padded prospect' (fun place => body.run place fun mid =>
            next (.note slot start mid))
            (fun place => body.run place fun mid => next' (.note slot start' mid)) := fun hstart =>
        ih h (hholds.noted slot _) (hholds'.noted slot _) (hnoted hstart)
      exact ⟨fun hflush => (hbody hflush.toBeside).flush hflush,
        fun hloose _ _ _ _ hplaces => (hbody hplaces).loose hloose hplaces,
        fun hsure _ _ _ _ hplaces hfar => (hbody hplaces).ending hsure hplaces hfar⟩
  | notAhead body ih =>
      unfold spread at h
      split at h
      · rename_i hbody
        obtain rfl := Option.some.inj h
        obtain ⟨inner, hinner⟩ := Option.isSome_iff_exists.mp hbody
        have hsure : Outlook.sure.Holds (some : Continuation σ) := fun _ => rfl
        refine agree_guarded hnext fun hflush => ?_
        have hsame := isSome_eq_of_rel ((ih hinner hsure hsure agree_some).flush hflush)
        rw [← Option.not_isSome, ← Option.not_isSome, hsame]
      · cases h
  | notBehind rejects => cases h
  | wordEdge =>
      obtain rfl := Option.some.inj h
      exact agree_guarded hnext fun hflush => hflush.atWordEdge_eq hpadded
  | lineStart => cases h
  | finish => cases h

/-! ### Matches and searches -/

end Pattern

/-- Two matches of a pattern that start between two stretches of the text, with nothing noted, and
end at places that belong together. -/
structure PairedAt (p : Pattern σ) (padded near far : Padded) (found found' : Match σ) : Prop where
  first : Beside padded near far found.first found'.first
  last : ∃ covered behind, far = covered ++ behind ∧
    Beside padded (near ++ covered) behind found.last found'.last
  fresh : found.first.notes = [] ∧ found'.first.notes = []
  matched : p.matchAt? found.first = some found ∧ p.matchAt? found'.first = some found'

/-- Two matches of a pattern that start at places that belong together and end at such places. -/
def Paired (p : Pattern σ) (padded : Padded) (found found' : Match σ) : Prop :=
  ∃ near far, PairedAt p padded near far found found'

namespace Pattern

variable {p : Pattern σ} {padded near far : Padded} {place place' : Place σ} {outlook : Outlook}
  {loose : Bool}

/-- A pattern leads forward on both sides. -/
theorem exists_covered_of_leads {near' far' : Padded} {mid mid' : Place σ}
    (h : Beside padded near far place place') (hmid : Beside padded near' far' mid mid')
    (hleads : Leads place' mid') : ∃ covered, far = covered ++ far' ∧ near' = near ++ covered := by
  obtain ⟨text, hrest, -, -⟩ := hleads
  have hlength : far'.length ≤ far.length := by
    have hcount := congrArg List.length hrest
    rw [h.rest', hmid.rest', List.length_append, length_wide, length_wide] at hcount
    omega
  have hsplit : near ++ far = near' ++ far' := h.split.symm.trans hmid.split
  rcases List.append_eq_append_iff.mp hsplit with ⟨covered, rfl, rfl⟩ | ⟨covered, rfl, rfl⟩
  · exact ⟨covered, rfl, rfl⟩
  · obtain rfl : covered = [] := by
      rw [List.length_append] at hlength
      exact List.eq_nil_of_length_eq_zero (by omega)
    exact ⟨[], rfl, by simp⟩

theorem matchAt?_of_rel (h : Beside padded near far place place') (hfresh : place.notes = [])
    (hrel : Option.Rel (Meets padded) (p.run place some) (p.run place' some)) :
    Option.Rel (PairedAt p padded near far) (p.matchAt? place) (p.matchAt? place') := by
  have hfresh' : place'.notes = [] := List.forall₂_nil_left_iff.mp (hfresh ▸ h.notes)
  unfold matchAt?
  cases hlast' : p.run place' some with
  | none =>
      rw [hlast'] at hrel
      cases hlast : p.run place some with
      | none => exact .none
      | some last => rw [hlast] at hrel; cases hrel
  | some last' =>
      rw [hlast'] at hrel
      cases hlast : p.run place some with
      | none => rw [hlast] at hrel; cases hrel
      | some last =>
          rw [hlast] at hrel
          cases hrel with
          | some hmeets =>
              obtain ⟨near', far', hmid⟩ := hmeets
              obtain ⟨covered, rfl, rfl⟩ :=
                exists_covered_of_leads h hmid (leads_of_mem_reached (mem_reached_of_run hlast'))
              have hmatched : p.matchAt? place = some ⟨place, last⟩ := by rw [matchAt?, hlast]; rfl
              have hmatched' : p.matchAt? place' = some ⟨place', last'⟩ := by
                rw [matchAt?, hlast']; rfl
              exact .some ⟨h, ⟨covered, far', rfl, hmid⟩, ⟨hfresh, hfresh'⟩, hmatched, hmatched'⟩

variable (hpadded : Sound padded) (hp : p.prospect? = some ⟨outlook, loose⟩)

include hpadded hp

theorem agree_matches :
    Agree padded ⟨outlook, loose⟩ (fun place => p.run place some)
      (fun place => p.run place some) := by
  have hsure : Outlook.sure.Holds (some : Continuation σ) := fun _ => rfl
  exact agree_run hpadded hp hsure hsure agree_some

/-- The best matches at flush places. -/
theorem matchAt?_of_flush (h : Flush padded near far place place') (hfresh : place.notes = []) :
    Option.Rel (PairedAt p padded near far) (p.matchAt? place) (p.matchAt? place') :=
  matchAt?_of_rel h.toBeside hfresh ((agree_matches hpadded hp).flush h)

/-- The best matches at the start of both spellings, for a pattern that begins with blanks. -/
theorem matchStart?_of_loose (hloose : loose = true) :
    Option.Rel (PairedAt p padded [] padded) (p.matchStart? (tight padded))
      (p.matchStart? (wide padded)) :=
  matchAt?_of_rel (.start padded) rfl ((agree_matches hpadded hp).loose hloose (.start padded))

/-- The best matches at the start of both spellings, if no blanks were added there. -/
theorem matchStart?_of_firm (hfirm : ∀ d behind, padded = (none, d) :: behind → tight behind = []) :
    Option.Rel (PairedAt p padded [] padded) (p.matchStart? (tight padded))
      (p.matchStart? (wide padded)) :=
  matchAt?_of_flush hpadded hp ⟨.start padded, hfirm, rfl⟩ rfl

omit hpadded in
/-- A pattern that is shut does not match in front of a filler. -/
theorem matchAt?_eq_none_of_shut (hshut : outlook = .shut)
    (hplace : ∀ c ∈ place.rest.head?, isFiller c = true) : p.matchAt? place = none := by
  subst hshut
  have hsure : Outlook.sure.Holds (some : Continuation σ) := fun _ => rfl
  have hrun : p.run place some = none := holds_run hp hsure place hplace
  rw [matchAt?, hrun]
  rfl

/-- The first matches in both spellings. -/
theorem findFrom?_paired (hshut : outlook = .shut) (near far : Padded)
    (hsplit : padded = near ++ far) :
    Option.Rel (Paired p padded)
      (p.findFrom? (tight near).getLast? (tight near).length (tight far))
      (p.findFrom? (wide near).getLast? (wide near).length (wide far)) := by
  induction far generalizing near with
  | nil =>
      have hnone : ∀ before offset, p.findFrom? before offset [] = none := fun before offset =>
        matchAt?_eq_none_of_shut hp hshut (by simp)
      rw [tight_nil, wide_nil, hnone, hnone]
      exact .none
  | cons item far ih =>
      have hnext := ih (near ++ [item]) (by simp [hsplit])
      obtain ⟨_ | c, d⟩ := item
      · have hfiller : isFiller d = true := (hsplit ▸ hpadded : Sound _).isFiller_of_added
        have hnone : p.matchAt? ⟨(wide near).getLast?, d :: wide far,
            (wide near).length, []⟩ = none :=
          matchAt?_eq_none_of_shut hp hshut (by simpa using hfiller)
        rw [wide_cons, findFrom?, hnone]
        simpa using hnext
      · have hhere := matchAt?_of_flush hpadded hp ((Beside.between hsplit).flush hpadded) rfl
        rw [tight_own, wide_cons] at hhere ⊢
        rw [findFrom?, findFrom?]
        generalize
          p.matchAt? ⟨(tight near).getLast?, c :: tight far, (tight near).length, []⟩ = found,
          p.matchAt? ⟨(wide near).getLast?, d :: wide far, (wide near).length, []⟩ = found'
          at hhere ⊢
        cases hhere with
        | none => simpa using hnext
        | some hpaired => exact .some ⟨near, _, hpaired⟩

/-- **A search finds a first match in both spellings, or in none.** -/
theorem find?_paired (hshut : outlook = .shut) :
    Option.Rel (Paired p padded) (p.find? (tight padded)) (p.find? (wide padded)) :=
  findFrom?_paired hpadded hp hshut [] padded rfl

theorem occursIn_padded (hshut : outlook = .shut) :
    p.occursIn (tight padded) = p.occursIn (wide padded) :=
  isSome_eq_of_rel (find?_paired hpadded hp hshut)

/-- The matches behind a stretch of both spellings. -/
theorem findAllFrom_paired (hshut : outlook = .shut) (near ahead : Padded)
    (hsplit : padded = near ++ ahead) (covered far : Padded) (hahead : ahead = covered ++ far) :
    List.Forall₂ (Paired p padded)
      (p.findAllFrom (tight covered).length (tight near).getLast? (tight near).length (tight ahead))
      (p.findAllFrom (wide covered).length (wide near).getLast? (wide near).length
        (wide ahead)) := by
  induction ahead generalizing near covered far with
  | nil => exact .nil
  | cons item ahead ih =>
      have hnext := ih (near ++ [item]) (by simp [hsplit])
      rcases covered with _ | ⟨other, covered⟩
      · obtain ⟨_ | c, d⟩ := item
        · have hfiller : isFiller d = true := (hsplit ▸ hpadded : Sound _).isFiller_of_added
          have hnone : p.matchAt? ⟨(wide near).getLast?, d :: wide ahead,
              (wide near).length, []⟩ = none :=
            matchAt?_eq_none_of_shut hp hshut (by simpa using hfiller)
          have hskip := hnext [] ahead rfl
          rw [wide_cons, wide_nil, List.length_nil, findAllFrom, hnone]
          simpa using hskip
        · have hhere := matchAt?_of_flush hpadded hp ((Beside.between hsplit).flush hpadded) rfl
          rw [tight_own, wide_cons] at hhere ⊢
          rw [tight_nil, wide_nil, List.length_nil, findAllFrom, findAllFrom]
          generalize
            p.matchAt? ⟨(tight near).getLast?, c :: tight ahead, (tight near).length, []⟩ = found,
            p.matchAt? ⟨(wide near).getLast?, d :: wide ahead, (wide near).length, []⟩ = found'
            at hhere ⊢
          cases hhere with
          | none => simpa using hnext [] ahead rfl
          | @some found found' hpaired =>
              refine .cons ⟨near, _, hpaired⟩ ?_
              obtain ⟨hfirst, ⟨covered, behind, hcovered, hlast⟩, -, -⟩ := hpaired
              have hlength : found.length = (tight covered).length := by
                simp [Match.length, hlast.offset, hfirst.offset]
              have hlength' : found'.length = (wide covered).length := by
                rw [Match.length, hlast.offset', hfirst.offset', wide_append, List.length_append,
                  Nat.add_sub_cancel_left]
              rw [hlength, hlength']
              -- Of the stretch that the matches cover, one character is behind already.
              rcases covered with _ | ⟨item, covered⟩
              · simpa using hnext [] ahead rfl
              · obtain ⟨rfl, rfl⟩ := List.cons.inj hcovered
                simpa using hnext covered behind rfl
      · obtain ⟨rfl, rfl⟩ := List.cons.inj hahead
        obtain ⟨_ | c, d⟩ := item
        · simpa [findAllFrom] using hnext covered far rfl
        · simpa [findAllFrom] using hnext covered far rfl

/-- **A search for all matches finds the same ones in both spellings.** -/
theorem findAll_paired (hshut : outlook = .shut) :
    List.Forall₂ (Paired p padded) (p.findAll (tight padded)) (p.findAll (wide padded)) :=
  findAllFrom_paired hpadded hp hshut [] padded rfl [] padded rfl

end Pattern

end Diagrams
