/-
Two texts that part.

A pattern that cannot get past a certain character does not see what stands behind it.  So in
two texts that are the same up to such a character it goes through the same places, step by
step, and notes the same stretches.  `Fork` says where the texts part, `Abreast` which places
belong together, and `Keeps` that a pattern leads from such places to such places only, in
the same order.  A pattern that stops in front of the fork does; this is `keeps_of_halts`.
What a search finds follows from it.

Without sight, that is if nothing is known about what lies behind two places, a pattern may not look
back; then it still reaches as many places in both texts.
-/
import Diagrams.Proofs.Pattern.Noted
import Diagrams.Proofs.Pattern.Stretch
import Mathlib.Data.List.Forall2

namespace Diagrams

variable {σ : Type}

/-- Two texts that begin with `front` and go on with `tail` and `tail'`, of which each is empty or
starts with the character `stop`. -/
structure Fork where
  front : Text
  tail : Text
  tail' : Text
  stop : Option Char
  /-- Whether what lies behind two places can be compared. -/
  sighted : Bool
  stop_tail : ∀ c ∈ tail.head?, stop = some c
  stop_tail' : ∀ c ∈ tail'.head?, stop = some c
  head : sighted → tail.head? = tail'.head?
  lineFeed : stop ≠ some '\n'

namespace Fork

variable {fork : Fork} {accepts : Char → Bool}

/-- Both texts end. -/
def atEnd (front : Text) : Fork where
  front := front
  tail := []
  tail' := []
  stop := none
  sighted := true
  stop_tail := by simp
  stop_tail' := by simp
  head := fun _ => rfl
  lineFeed := by simp

/-- Both texts go on with the same character. -/
def same (front : Text) (c : Char) (hc : c ≠ '\n') (rest rest' : Text) (sighted : Bool) : Fork where
  front := front
  tail := c :: rest
  tail' := c :: rest'
  stop := some c
  sighted := sighted
  stop_tail := by simp
  stop_tail' := by simp
  head := fun _ => rfl
  lineFeed := by simpa using hc

/-- One text goes on and the other ends. -/
def cut (front : Text) (c : Char) (hc : c ≠ '\n') (rest : Text) : Fork where
  front := front
  tail := c :: rest
  tail' := []
  stop := some c
  sighted := false
  stop_tail := by simp
  stop_tail' := by simp
  head := fun h => absurd h Bool.false_ne_true
  lineFeed := by simpa using hc

/-- A test that does not let the stop pass lets nothing pass at the fork. -/
theorem rejects (haccepts : (fork.stop.all fun c => !accepts c) = true) :
    (∀ c ∈ fork.tail.head?, accepts c = false) ∧ ∀ c ∈ fork.tail'.head?, accepts c = false := by
  have hstop : ∀ c, fork.stop = some c → accepts c = false := fun c hc => by
    simpa using (Option.all_eq_true _ _).mp haccepts c hc
  exact ⟨fun c hc => hstop c (fork.stop_tail c hc), fun c hc => hstop c (fork.stop_tail' c hc)⟩

/-- Both texts end here, or neither does. -/
theorem atFinish_eq (hsighted : fork.sighted) (ahead : Text) :
    (ahead ++ fork.tail == [] || ahead ++ fork.tail == ['\n'])
      = (ahead ++ fork.tail' == [] || ahead ++ fork.tail' == ['\n']) := by
  have hhead := fork.head hsighted
  have hopen : ∀ (c : Char) (rest : Text), c ≠ '\n' →
      (ahead ++ c :: rest == [] || ahead ++ c :: rest == ['\n']) = false := by
    intro c rest hc
    rcases ahead with _ | ⟨d, _ | ⟨e, ahead⟩⟩ <;> simp [hc]
  cases htail : fork.tail with
  | nil =>
      have htail' : fork.tail' = [] := by simpa [htail] using hhead.symm
      rw [htail']
  | cons c rest =>
      have hc : c ≠ '\n' := by
        rintro rfl
        exact fork.lineFeed (fork.stop_tail _ (by rw [htail]; rfl))
      cases htail' : fork.tail' with
      | nil => simp [htail, htail'] at hhead
      | cons d rest' =>
          obtain rfl : c = d := by simpa [htail, htail'] using hhead
          rw [hopen c rest hc, hopen c rest' hc]

end Fork

/-! ### Places that belong together -/

/-- The same stretches noted under the same names. -/
def SameNotes (notes notes' : List (σ × Stretch)) : Prop :=
  List.Forall₂ (fun note note' => note.1 = note'.1 ∧ note.2.text = note'.2.text) notes notes'

/-- Two places as far in front of the fork; with sight, the same lies behind them. -/
structure Abreast (fork : Fork) (place place' : Place σ) : Prop where
  rest : ∃ ahead, ahead <:+ fork.front ∧ place.rest = ahead ++ fork.tail ∧
    place'.rest = ahead ++ fork.tail'
  before : fork.sighted → place.before = place'.before
  notes : fork.sighted → SameNotes place.notes place'.notes

namespace Abreast

variable {fork : Fork} {place place' : Place σ} {accepts : Char → Bool}

/-- The start of a search on both sides. -/
theorem start {ahead : Text} (h : ahead <:+ fork.front) (before : Option Char)
    (offset offset' : Nat) :
    Abreast fork (⟨before, ahead ++ fork.tail, offset, []⟩ : Place σ)
      ⟨before, ahead ++ fork.tail', offset', []⟩ where
  rest := ⟨ahead, h, rfl, rfl⟩
  before := fun _ => rfl
  notes := fun _ => .nil

/-- Both places are in front of a character that does not pass, or both go one step. -/
theorem cases (haccepts : (fork.stop.all fun c => !accepts c) = true)
    (h : Abreast fork place place') :
    ((∀ c ∈ place.rest.head?, accepts c = false) ∧ ∀ c ∈ place'.rest.head?, accepts c = false) ∨
      ∃ c rest rest', place.rest = c :: rest ∧ place'.rest = c :: rest' ∧ accepts c = true ∧
        Abreast fork (place.past [c] rest) (place'.past [c] rest') := by
  obtain ⟨ahead, hsuffix, hrest, hrest'⟩ := h.rest
  cases ahead with
  | nil =>
      left
      rw [hrest, hrest']
      exact fork.rejects haccepts
  | cons c ahead =>
      cases hc : accepts c with
      | true =>
          refine .inr ⟨c, ahead ++ fork.tail, ahead ++ fork.tail', hrest, hrest', hc, ?_⟩
          exact ⟨⟨ahead, (List.suffix_cons c ahead).trans hsuffix, rfl, rfl⟩, fun _ => rfl, h.notes⟩
      | false =>
          left
          rw [hrest, hrest']
          exact ⟨forall_head?_cons hc _, forall_head?_cons hc _⟩

theorem step? (haccepts : (fork.stop.all fun c => !accepts c) = true)
    (h : Abreast fork place place') :
    List.Forall₂ (Abreast fork) (place.step? accepts).toList (place'.step? accepts).toList := by
  have hnone : ∀ place : Place σ, (∀ c ∈ place.rest.head?, accepts c = false) →
      place.step? accepts = none := by
    intro place hstop
    refine Option.eq_none_iff_forall_ne_some.mpr fun mid hmid => ?_
    obtain ⟨c, rest, hrest, hc, -⟩ := (Place.step?_eq_some_iff ..).mp hmid
    rw [hstop c (by rw [hrest]; rfl)] at hc
    exact Bool.noConfusion hc
  rcases h.cases haccepts with ⟨hstop, hstop'⟩ | ⟨c, rest, rest', hrest, hrest', hc, hpast⟩
  · rw [hnone place hstop, hnone place' hstop']
    exact .nil
  · rw [(Place.step?_eq_some_iff ..).mpr ⟨c, rest, hrest, hc, rfl⟩,
      (Place.step?_eq_some_iff ..).mpr ⟨c, rest', hrest', hc, rfl⟩]
    exact .cons hpast .nil

theorem reach (haccepts : (fork.stop.all fun c => !accepts c) = true)
    (h : Abreast fork place place') (greed : Greed) :
    List.Forall₂ (Abreast fork) (place.reach greed accepts) (place'.reach greed accepts) := by
  have hgreedy : List.Forall₂ (Abreast fork) (place.reach .greedy accepts)
      (place'.reach .greedy accepts) := by
    induction hlength : place.rest.length generalizing place place' with
    | zero =>
        rcases h.cases haccepts with ⟨hstop, hstop'⟩ | ⟨c, rest, -, hrest, -⟩
        · rw [Place.reach_of_stop hstop, Place.reach_of_stop hstop']
          exact .cons h .nil
        · simp [hrest] at hlength
    | succ length ih =>
        rcases h.cases haccepts with ⟨hstop, hstop'⟩ | ⟨c, rest, rest', hrest, hrest', hc, hpast⟩
        · rw [Place.reach_of_stop hstop, Place.reach_of_stop hstop']
          exact .cons h .nil
        · rw [Place.reach_greedy_cons hrest hc, Place.reach_greedy_cons hrest' hc]
          exact List.rel_append (ih hpast (by simpa [hrest] using hlength)) (.cons h .nil)
  cases greed with
  | greedy => exact hgreedy
  | lazy => exact List.rel_reverse hgreedy

theorem head?_eq (hsighted : fork.sighted) (h : Abreast fork place place') :
    place.rest.head? = place'.rest.head? := by
  obtain ⟨ahead, -, hrest, hrest'⟩ := h.rest
  rw [hrest, hrest', List.head?_append, List.head?_append, fork.head hsighted]

theorem atWordEdge_eq (hsighted : fork.sighted) (h : Abreast fork place place') :
    place.atWordEdge = place'.atWordEdge := by
  unfold Place.atWordEdge Place.follows Place.precedes
  rw [h.before hsighted, h.head?_eq hsighted]

theorem atFinish_eq (hsighted : fork.sighted) (h : Abreast fork place place') :
    place.atFinish = place'.atFinish := by
  obtain ⟨ahead, -, hrest, hrest'⟩ := h.rest
  unfold Place.atFinish
  rw [hrest, hrest']
  exact fork.atFinish_eq hsighted ahead

/-- The same stretch lies between two places in both texts. -/
theorem exists_covered {mid mid' : Place σ} (h : Abreast fork place place')
    (hmid : Abreast fork mid mid') (hleads : Pattern.Leads place mid)
    (hleads' : Pattern.Leads place' mid') :
    ∃ covered ahead, place.rest = covered ++ (ahead ++ fork.tail) ∧ mid.rest = ahead ++ fork.tail ∧
      mid.offset = place.offset + covered.length ∧
      place'.rest = covered ++ (ahead ++ fork.tail') ∧ mid'.rest = ahead ++ fork.tail' ∧
      mid'.offset = place'.offset + covered.length := by
  obtain ⟨covered, hsplit, -, hoffset⟩ := hleads
  obtain ⟨covered', hsplit', -, hoffset'⟩ := hleads'
  obtain ⟨all, -, hrest, hrest'⟩ := h.rest
  obtain ⟨ahead, -, hahead, hahead'⟩ := hmid.rest
  have hall : all = covered ++ ahead := by
    refine (List.append_left_inj fork.tail).mp ?_
    rw [← hrest, hsplit, hahead, List.append_assoc]
  have hall' : all = covered' ++ ahead := by
    refine (List.append_left_inj fork.tail').mp ?_
    rw [← hrest', hsplit', hahead', List.append_assoc]
  obtain rfl : covered = covered' := List.append_cancel_right (hall.symm.trans hall')
  rw [hahead] at hsplit
  rw [hahead'] at hsplit'
  exact ⟨covered, ahead, hsplit, hahead, hoffset, hsplit', hahead', hoffset'⟩

/-- What lies between two places is noted as the same stretch in both texts. -/
theorem note {mid mid' : Place σ} (h : Abreast fork place place') (hmid : Abreast fork mid mid')
    (hleads : Pattern.Leads place mid) (hleads' : Pattern.Leads place' mid') (slot : σ) :
    Abreast fork (Place.note slot place mid) (Place.note slot place' mid') := by
  refine ⟨hmid.rest, hmid.before, fun hsighted => .cons ⟨rfl, ?_⟩ (hmid.notes hsighted)⟩
  have hcovered : ∀ {place mid : Place σ} {covered rest : Text}, place.rest = covered ++ rest →
      mid.offset = place.offset + covered.length →
      (Stretch.mk place.rest (mid.offset - place.offset)).text = covered := by
    intro place mid covered rest hrest hoffset
    simp [Stretch.text, hrest, hoffset]
  obtain ⟨covered, ahead, hrest, -, hoffset, hrest', -, hoffset'⟩ :=
    h.exists_covered hmid hleads hleads'
  exact (hcovered hrest hoffset).trans (hcovered hrest' hoffset').symm

end Abreast

/-! ### Patterns that keep abreast -/

namespace Pattern

variable {fork : Fork} {p q : Pattern σ}

/-- From places that belong together the pattern leads to places that belong together. -/
def Keeps (fork : Fork) (p : Pattern σ) : Prop :=
  ∀ ⦃place place' : Place σ⦄, Abreast fork place place' →
    List.Forall₂ (Abreast fork) (p.reached place) (p.reached place')

/-- What belongs together comes from both lists. -/
theorem forall₂_mem {α β : Type} {R : α → β → Prop} {items : List α} {items' : List β}
    (h : List.Forall₂ R items items') :
    List.Forall₂ (fun a b => (a ∈ items ∧ b ∈ items') ∧ R a b) items items' := by
  induction h with
  | nil => exact .nil
  | cons hhead _ ih =>
      refine .cons ⟨⟨List.mem_cons_self, List.mem_cons_self⟩, hhead⟩ (ih.imp ?_)
      rintro a b ⟨⟨ha, hb⟩, hab⟩
      exact ⟨⟨List.mem_cons_of_mem _ ha, List.mem_cons_of_mem _ hb⟩, hab⟩

theorem exists_of_mem_left {α β : Type} {R : α → β → Prop} {items : List α} {items' : List β}
    (h : List.Forall₂ R items items') {a : α} (ha : a ∈ items) : ∃ b ∈ items', R a b := by
  induction h with
  | nil => exact absurd ha List.not_mem_nil
  | cons hhead _ ih =>
      rcases List.mem_cons.mp ha with rfl | ha
      · exact ⟨_, List.mem_cons_self, hhead⟩
      · obtain ⟨b, hb, hab⟩ := ih ha
        exact ⟨b, List.mem_cons_of_mem _ hb, hab⟩

/-- Only the places to which the first pattern leads matter for the second. -/
theorem reached_seq_abreast {R S : Place σ → Place σ → Prop} {place place' : Place σ}
    (hp : List.Forall₂ R (p.reached place) (p.reached place'))
    (hq : ∀ mid ∈ p.reached place, ∀ mid', R mid mid' →
      List.Forall₂ S (q.reached mid) (q.reached mid')) :
    List.Forall₂ S ((seq p q).reached place) ((seq p q).reached place') := by
  refine List.rel_flatMap (forall₂_mem hp) ?_
  rintro mid mid' ⟨⟨hmid, -⟩, hmids⟩
  exact hq mid hmid mid' hmids

theorem guarded_abreast {place place' : Place σ} (h : Abreast fork place place')
    {holds holds' : Bool} (hsame : holds = holds') :
    List.Forall₂ (Abreast fork) (if holds then [place] else [])
      (if holds' then [place'] else []) := by
  subst hsame
  cases holds with
  | true => exact .cons h .nil
  | false => exact .nil

theorem reached_noted_abreast {place place' : Place σ} (h : Abreast fork place place')
    (hp : List.Forall₂ (Abreast fork) (p.reached place) (p.reached place')) (slot : σ) :
    List.Forall₂ (Abreast fork) ((noted slot p).reached place) ((noted slot p).reached place') := by
  refine List.forall₂_map_left_iff.mpr (List.forall₂_map_right_iff.mpr ((forall₂_mem hp).imp ?_))
  rintro mid mid' ⟨⟨hmid, hmid'⟩, hmids⟩
  exact h.note hmids (leads_of_mem_reached hmid) (leads_of_mem_reached hmid') slot

namespace Keeps

theorem empty : (empty : Pattern σ).Keeps fork := fun _ _ h => .cons h .nil

theorem seq (hp : p.Keeps fork) (hq : q.Keeps fork) : (seq p q).Keeps fork :=
  fun _ _ h => reached_seq_abreast (hp h) fun _ _ _ hmids => hq hmids

theorem alt (hp : p.Keeps fork) (hq : q.Keeps fork) : (alt p q).Keeps fork :=
  fun _ _ h => List.rel_append (hp h) (hq h)

theorem noted (hp : p.Keeps fork) (slot : σ) : (noted slot p).Keeps fork :=
  fun _ _ h => reached_noted_abreast h (hp h) slot

theorem notAhead (hp : p.Keeps fork) : (notAhead p).Keeps fork := by
  intro place place' h
  refine guarded_abreast h ?_
  rw [Bool.eq_iff_iff, List.isEmpty_iff_length_eq_zero, List.isEmpty_iff_length_eq_zero,
    (hp h).length_eq]

/-- A last character may be looked at even where the texts part. -/
theorem notAhead_one (hsighted : fork.sighted) (hp : p.Keeps fork) (accepts : Char → Bool) :
    (Pattern.notAhead (Pattern.seq p (one accepts))).Keeps fork := by
  intro place place' h
  refine guarded_abreast h ?_
  have hsame : List.Forall₂ (fun _ _ => True) ((Pattern.seq p (one accepts)).reached place)
      ((Pattern.seq p (one accepts)).reached place') := by
    refine reached_seq_abreast (hp h) fun mid _ mid' hmids => ?_
    have hhead := hmids.head?_eq hsighted
    unfold Pattern.reached Place.step?
    cases hrest : mid.rest with
    | nil =>
        have hrest' : mid'.rest = [] := by simpa [hrest] using hhead.symm
        rw [hrest']
        exact .nil
    | cons c rest =>
        obtain ⟨rest', hrest'⟩ : ∃ rest', mid'.rest = c :: rest' :=
          List.head?_eq_some_iff.mp (by rw [← hhead, hrest]; rfl)
        rw [hrest']
        cases hc : accepts c with
        | true => simp [hc]
        | false => simp [hc]
  rw [Bool.eq_iff_iff, List.isEmpty_iff_length_eq_zero, List.isEmpty_iff_length_eq_zero,
    hsame.length_eq]

theorem append {ps qs : List (Pattern σ)} (hp : (Pattern.all ps).Keeps fork)
    (hq : (Pattern.all qs).Keeps fork) : (Pattern.all (ps ++ qs)).Keeps fork := by
  intro place place' h
  rw [reached_all_append, reached_all_append]
  exact List.rel_flatMap (hp h) fun _ _ hmids => hq hmids

end Keeps

/-! ### Patterns that stop -/

/-- Whether the pattern covers nothing with the character `stop` in it; without sight it must not
ask what stands around a place either. -/
def halts (stop : Option Char) (sighted : Bool) : Pattern σ → Bool
  | empty => true
  | one accepts => stop.all fun c => !accepts c
  | seq first second => first.halts stop sighted && second.halts stop sighted
  | alt first second => first.halts stop sighted && second.halts stop sighted
  | many _ accepts => stop.all fun c => !accepts c
  | star _ => false
  | noted _ body => body.halts stop sighted
  | notAhead body => body.halts stop sighted
  | notBehind _ => sighted
  | wordEdge => sighted
  | lineStart => sighted
  | finish => sighted

/-- **A pattern that stops in front of the fork goes through the same places of both texts.** -/
theorem keeps_of_halts (h : p.halts fork.stop fork.sighted = true) : p.Keeps fork := by
  induction p with
  | empty => exact .empty
  | one accepts => exact fun _ _ hplaces => hplaces.step? h
  | seq first second ih₁ ih₂ =>
      obtain ⟨hfirst, hsecond⟩ := Bool.and_eq_true_iff.mp h
      exact (ih₁ hfirst).seq (ih₂ hsecond)
  | alt first second ih₁ ih₂ =>
      obtain ⟨hfirst, hsecond⟩ := Bool.and_eq_true_iff.mp h
      exact (ih₁ hfirst).alt (ih₂ hsecond)
  | many greed accepts => exact fun _ _ hplaces => hplaces.reach h greed
  | star body => exact absurd h Bool.false_ne_true
  | noted slot body ih => exact (ih h).noted slot
  | notAhead body ih => exact (ih h).notAhead
  | notBehind rejects =>
      intro place place' hplaces
      have hsame : place.follows rejects = place'.follows rejects := by
        rw [Place.follows, Place.follows, hplaces.before h]
      unfold Pattern.reached
      rw [hsame]
      cases place'.follows rejects with
      | true => exact .nil
      | false => exact .cons hplaces .nil
  | wordEdge => exact fun _ _ hplaces => guarded_abreast hplaces (hplaces.atWordEdge_eq h)
  | lineStart =>
      intro place place' hplaces
      refine guarded_abreast hplaces ?_
      rw [Place.atLineStart, Place.atLineStart, hplaces.before h]
  | finish => exact fun _ _ hplaces => guarded_abreast hplaces (hplaces.atFinish_eq h)

theorem keeps_same {front rest rest' : Text} {c : Char} {hc : c ≠ '\n'} {sighted : Bool}
    (h : p.halts (some c) sighted = true) : p.Keeps (.same front c hc rest rest' sighted) :=
  keeps_of_halts h

/-- A pattern that stops at a character does not cover it. -/
theorem coversOnly_of_halts {c : Char} {sighted : Bool} (h : p.halts (some c) sighted = true) :
    p.CoversOnly (· != c) := by
  refine coversOnly_of_omits ?_
  induction p with
  | one accepts | many greed accepts => exact h
  | seq first second ih₁ ih₂ | alt first second ih₁ ih₂ =>
      obtain ⟨hfirst, hsecond⟩ := Bool.and_eq_true_iff.mp h
      exact Bool.and_eq_true_iff.mpr ⟨ih₁ hfirst, ih₂ hsecond⟩
  | star body => exact absurd h Bool.false_ne_true
  | noted slot body ih => exact ih h
  | _ => rfl

/-! ### Matches and searches -/

theorem rel_imp {α β : Type} {R S : α → β → Prop} {a : Option α} {b : Option β}
    (h : Option.Rel R a b) (himp : ∀ a b, R a b → S a b) : Option.Rel S a b := by
  cases h with
  | none => exact .none
  | some hab => exact .some (himp _ _ hab)

theorem isSome_eq_of_rel {α β : Type} {R : α → β → Prop} {a : Option α} {b : Option β}
    (h : Option.Rel R a b) : a.isSome = b.isSome := by
  cases h <;> rfl

theorem matchAt?_eq_head? (p : Pattern σ) (place : Place σ) :
    p.matchAt? place = (p.reached place).head?.map (Match.mk place) := by
  unfold matchAt?
  rw [run_eq_findSome?]
  cases p.reached place <;> rfl

variable [DecidableEq σ]

/-- Two matches that note the same stretches. -/
def Alike (found found' : Match σ) : Prop := ∀ slot, found.text? slot = found'.text? slot

theorem alike_of_sameNotes {found found' : Match σ}
    (h : SameNotes found.last.notes found'.last.notes) : Alike found found' := by
  intro slot
  unfold Match.text?
  generalize found.last.notes = notes, found'.last.notes = notes' at h ⊢
  induction h with
  | nil => rfl
  | @cons note note' notes notes' hnote _ ih =>
      rw [List.find?_cons, List.find?_cons, hnote.1]
      cases decide (note'.1 = slot) with
      | true => exact congrArg some hnote.2
      | false => exact ih

theorem Alike.text {found found' : Match σ} (h : Alike found found') (slot : σ) :
    found.text slot = found'.text slot := by
  rw [Match.text, Match.text, h slot]

/-- Two matches at the start of `front` that note the same stretches and end in front of the
fork. -/
structure Twins (front tail tail' : Text) (found found' : Match σ) : Prop where
  alike : Alike found found'
  covered : ∃ covered ahead, front = covered ++ ahead ∧ found.rest = ahead ++ tail ∧
    found'.rest = ahead ++ tail' ∧ found.length = covered.length ∧ found'.length = covered.length

/-- The best matches at two places that belong together. -/
theorem matchAt?_abreast {ahead : Text} {place place' : Place σ} (hsighted : fork.sighted)
    (hplaces : Abreast fork place place') (hahead : place.rest = ahead ++ fork.tail)
    (h : List.Forall₂ (Abreast fork) (p.reached place) (p.reached place')) :
    Option.Rel (Twins ahead fork.tail fork.tail') (p.matchAt? place) (p.matchAt? place') := by
  rw [matchAt?_eq_head?, matchAt?_eq_head?]
  cases hlasts : p.reached place with
  | nil =>
      have hlasts' : p.reached place' = [] := by simpa [hlasts] using h
      rw [hlasts']
      exact .none
  | cons last others =>
      cases hlasts' : p.reached place' with
      | nil => simp [hlasts, hlasts'] at h
      | cons last' others' =>
          rw [hlasts, hlasts', List.forall₂_cons] at h
          have hlast := h.1
          have hleads := leads_of_mem_reached (p := p) (hlasts ▸ List.mem_cons_self)
          have hleads' := leads_of_mem_reached (p := p) (hlasts' ▸ List.mem_cons_self)
          obtain ⟨covered, after, hrest, hafter, hoffset, -, hafter', hoffset'⟩ :=
            hplaces.exists_covered hlast hleads hleads'
          have hcovered : ahead = covered ++ after := by
            refine (List.append_left_inj fork.tail).mp ?_
            rw [List.append_assoc, ← hrest, ← hahead]
          refine .some ⟨alike_of_sameNotes (hlast.notes hsighted), covered, after, hcovered, hafter,
            hafter', ?_, ?_⟩
          · rw [Match.length, hoffset, Nat.add_sub_cancel_left]
          · rw [Match.length, hoffset', Nat.add_sub_cancel_left]

namespace Keeps

variable {ahead : Text} {before : Option Char} {offset offset' : Nat}

theorem matchAt? (h : p.Keeps fork) (hsighted : fork.sighted) (hahead : ahead <:+ fork.front)
    (before : Option Char) (offset offset' : Nat) :
    Option.Rel (Twins ahead fork.tail fork.tail')
      (p.matchAt? ⟨before, ahead ++ fork.tail, offset, []⟩)
      (p.matchAt? ⟨before, ahead ++ fork.tail', offset', []⟩) := by
  have hstart := @Abreast.start σ fork ahead hahead before offset offset'
  exact matchAt?_abreast hsighted hstart rfl (h hstart)

/-- The first match is the same where what is found behind the fork is the same. -/
theorem findFrom? (h : p.Keeps fork) (hsighted : fork.sighted) (hahead : ahead <:+ fork.front)
    (hrest : ∀ offset offset', Option.Rel Alike
      (p.findFrom? (ahead.getLast?.or before) offset fork.tail)
      (p.findFrom? (ahead.getLast?.or before) offset' fork.tail')) :
    Option.Rel Alike (p.findFrom? before offset (ahead ++ fork.tail))
      (p.findFrom? before offset' (ahead ++ fork.tail')) := by
  induction ahead generalizing before offset offset' with
  | nil => exact hrest offset offset'
  | cons c ahead ih =>
      have hhere := h.matchAt? hsighted hahead before offset offset'
      rw [List.cons_append, List.cons_append] at hhere ⊢
      rw [Pattern.findFrom?, Pattern.findFrom?]
      generalize p.matchAt? ⟨before, c :: (ahead ++ fork.tail), offset, []⟩ = found,
        p.matchAt? ⟨before, c :: (ahead ++ fork.tail'), offset', []⟩ = found' at hhere ⊢
      cases hhere with
      | none =>
          rw [getLast?_cons_or] at hrest
          exact ih ((List.suffix_cons c ahead).trans hahead) hrest
      | some htwins => exact .some htwins.alike

/-- A first match in front of the fork is found in both texts. -/
theorem exists_findFrom? (h : p.Keeps fork) (hsighted : fork.sighted)
    (hahead : ahead <:+ fork.front)
    (hnone : ∀ before offset, p.findFrom? before offset fork.tail = none) {found : Match σ}
    (hfound : p.findFrom? before offset (ahead ++ fork.tail) = some found) :
    ∃ found' after, p.findFrom? before offset' (ahead ++ fork.tail') = some found' ∧
      after <:+ ahead ∧ Twins after fork.tail fork.tail' found found' := by
  induction ahead generalizing before offset offset' with
  | nil =>
      rw [List.nil_append, hnone] at hfound
      exact absurd hfound.symm (Option.some_ne_none found)
  | cons c ahead ih =>
      have hhere := h.matchAt? hsighted hahead before offset offset'
      rw [List.cons_append, List.cons_append] at hhere
      rw [List.cons_append, Pattern.findFrom?] at hfound
      rw [List.cons_append, Pattern.findFrom?]
      generalize p.matchAt? ⟨before, c :: (ahead ++ fork.tail), offset, []⟩ = here,
        p.matchAt? ⟨before, c :: (ahead ++ fork.tail'), offset', []⟩ = here' at hhere hfound ⊢
      cases hhere with
      | none =>
          have hsuffix := List.suffix_cons c ahead
          obtain ⟨found', after, hfound', hafter, htwins⟩ := ih (hsuffix.trans hahead) hfound
          exact ⟨found', after, hfound', hafter.trans hsuffix, htwins⟩
      | some htwins =>
          obtain rfl := Option.some.inj hfound
          exact ⟨_, c :: ahead, rfl, List.suffix_refl _, htwins⟩

/-- All matches are the same where what is found behind the fork is the same. -/
theorem findAllFrom (h : p.Keeps fork) (hsighted : fork.sighted) (hahead : ahead <:+ fork.front)
    {skip : Nat} (hskip : skip ≤ ahead.length)
    (hrest : ∀ offset offset', List.Forall₂ Alike
      (p.findAllFrom 0 (ahead.getLast?.or before) offset fork.tail)
      (p.findAllFrom 0 (ahead.getLast?.or before) offset' fork.tail')) :
    List.Forall₂ Alike (p.findAllFrom skip before offset (ahead ++ fork.tail))
      (p.findAllFrom skip before offset' (ahead ++ fork.tail')) := by
  induction ahead generalizing skip before offset offset' with
  | nil =>
      obtain rfl : skip = 0 := Nat.le_zero.mp hskip
      exact hrest offset offset'
  | cons c ahead ih =>
      rw [getLast?_cons_or] at hrest
      have hsuffix := (List.suffix_cons c ahead).trans hahead
      cases skip with
      | succ skip => exact ih hsuffix (by simpa using hskip) hrest
      | zero =>
          have hhere := h.matchAt? hsighted hahead before offset offset'
          rw [List.cons_append, List.cons_append] at hhere ⊢
          rw [Pattern.findAllFrom, Pattern.findAllFrom]
          generalize p.matchAt? ⟨before, c :: (ahead ++ fork.tail), offset, []⟩ = found,
            p.matchAt? ⟨before, c :: (ahead ++ fork.tail'), offset', []⟩ = found' at hhere ⊢
          cases hhere with
          | none => exact ih hsuffix (Nat.zero_le _) hrest
          | @some found found' htwins =>
              obtain ⟨covered, after, hsplit, -, -, hlength, hlength'⟩ := htwins.covered
              have hcount := congrArg List.length hsplit
              rw [List.length_cons, List.length_append] at hcount
              refine .cons htwins.alike ?_
              rw [hlength, hlength']
              exact ih hsuffix (by omega) hrest

end Keeps

/-! ### Texts that come together again -/

theorem findFrom?_offset (h : p.halts none true = true) (before : Option Char)
    (offset offset' : Nat) (rest : Text) :
    Option.Rel Alike (p.findFrom? before offset rest) (p.findFrom? before offset' rest) := by
  have hkeeps : p.Keeps (.atEnd rest) := keeps_of_halts h
  have hsame : Option.Rel Alike (p.findFrom? before offset (rest ++ []))
      (p.findFrom? before offset' (rest ++ [])) := by
    refine hkeeps.findFrom? rfl (List.suffix_refl rest) fun offset offset' => ?_
    exact rel_imp (hkeeps.matchAt? rfl (List.nil_suffix) _ offset offset')
      fun _ _ htwins => htwins.alike
  rwa [List.append_nil] at hsame

theorem findAllFrom_offset (h : p.halts none true = true) (before : Option Char)
    (offset offset' : Nat) (rest : Text) :
    List.Forall₂ Alike (p.findAllFrom 0 before offset rest)
      (p.findAllFrom 0 before offset' rest) := by
  have hkeeps : p.Keeps (.atEnd rest) := keeps_of_halts h
  have hsame : List.Forall₂ Alike (p.findAllFrom 0 before offset (rest ++ []))
      (p.findAllFrom 0 before offset' (rest ++ [])) :=
    hkeeps.findAllFrom rfl (List.suffix_refl rest) (Nat.zero_le _) fun _ _ => .nil
  rwa [List.append_nil] at hsame

variable {middle middle' rest : Text}

/-- **The first match is the same in two texts that differ in a stretch where no match starts.** -/
theorem find?_parted (h : p.halts none true = true) (hkeeps : p.Keeps fork)
    (hsighted : fork.sighted) {ahead : Text} (hahead : ahead <:+ fork.front)
    (htail : fork.tail = middle ++ rest) (htail' : fork.tail' = middle' ++ rest)
    (hmiddle : p.Skips middle rest) (hmiddle' : p.Skips middle' rest)
    (hlast : middle.getLast? = middle'.getLast?) :
    Option.Rel Alike (p.find? (ahead ++ fork.tail)) (p.find? (ahead ++ fork.tail')) := by
  refine hkeeps.findFrom? hsighted hahead fun offset offset' => ?_
  rw [htail, htail', hmiddle.findFrom?, hmiddle'.findFrom?, hlast]
  exact findFrom?_offset h ..

/-- **All matches are the same in two texts that differ in a stretch where no match starts.** -/
theorem findAll_parted (h : p.halts none true = true) (hkeeps : p.Keeps fork)
    (hsighted : fork.sighted) {ahead : Text} (hahead : ahead <:+ fork.front)
    (htail : fork.tail = middle ++ rest) (htail' : fork.tail' = middle' ++ rest)
    (hmiddle : p.Skips middle rest) (hmiddle' : p.Skips middle' rest)
    (hlast : middle.getLast? = middle'.getLast?) :
    List.Forall₂ Alike (p.findAll (ahead ++ fork.tail)) (p.findAll (ahead ++ fork.tail')) := by
  refine hkeeps.findAllFrom hsighted hahead (Nat.zero_le _) fun offset offset' => ?_
  rw [htail, htail',
    findAllFrom_append fun near c far hsplit place _ hplace =>
      hmiddle near c far hsplit place hplace,
    findAllFrom_append fun near c far hsplit place _ hplace =>
      hmiddle' near c far hsplit place hplace,
    hlast]
  exact findAllFrom_offset h ..

end Pattern

end Diagrams
