/-
The characters of a noted stretch.

Which characters a pattern can cover is read off its tests.  Where every part that notes a name
covers characters of one class only, whatever is noted under that name is made of such characters,
on every path and in every text.
-/
import Diagrams.Proofs.Pattern.Paths

namespace Diagrams.Pattern

variable {σ : Type} {test : Char → Bool} {place place' : Place σ} {p : Pattern σ} {slot : σ}

/-- Every character that the pattern covers passes the test. -/
def CoversOnly (test : Char → Bool) : Pattern σ → Prop
  | one accepts => ∀ c, accepts c = true → test c = true
  | seq first second => first.CoversOnly test ∧ second.CoversOnly test
  | alt first second => first.CoversOnly test ∧ second.CoversOnly test
  | many _ accepts => ∀ c, accepts c = true → test c = true
  | star body => body.CoversOnly test
  | noted _ body => body.CoversOnly test
  | _ => True

/-- Whether the tests of the pattern all fail for the character. -/
def omits (c : Char) : Pattern σ → Bool
  | one accepts => !accepts c
  | seq first second => first.omits c && second.omits c
  | alt first second => first.omits c && second.omits c
  | many _ accepts => !accepts c
  | star body => body.omits c
  | noted _ body => body.omits c
  | _ => true

theorem coversOnly_of_omits {c : Char} (h : p.omits c = true) : p.CoversOnly (· != c) := by
  induction p with
  | one accepts | many greed accepts =>
      intro d hd
      rw [bne_iff_ne]
      rintro rfl
      simp [omits, hd] at h
  | seq first second ih₁ ih₂ | alt first second ih₁ ih₂ =>
      obtain ⟨hfirst, hsecond⟩ := Bool.and_eq_true_iff.mp h
      exact ⟨ih₁ hfirst, ih₂ hsecond⟩
  | star body ih => exact ih h
  | noted slot body ih => exact ih h
  | _ => trivial

/-- Every character that the pattern notes under the name passes the test. -/
def NotesOnly (test : Char → Bool) (slot : σ) : Pattern σ → Prop
  | seq first second => first.NotesOnly test slot ∧ second.NotesOnly test slot
  | alt first second => first.NotesOnly test slot ∧ second.NotesOnly test slot
  | star body => body.NotesOnly test slot
  | noted other body => (other = slot → body.CoversOnly test) ∧ body.NotesOnly test slot
  | _ => True

theorem notesOnly_all {ps : List (Pattern σ)} :
    (all ps).NotesOnly test slot ↔ ∀ p ∈ ps, p.NotesOnly test slot := by
  induction ps with
  | nil => simp [all, NotesOnly]
  | cons p ps ih =>
      cases ps with
      | nil => simp [all]
      | cons q ps =>
          rw [List.forall_mem_cons, ← ih]
          exact Iff.rfl

/-- A pattern that does not note the name notes nothing else there. -/
theorem NotesOnly.of_mayNote [DecidableEq σ] (h : p.mayNote slot = false) :
    p.NotesOnly test slot := by
  induction p with
  | seq p q ihp ihq | alt p q ihp ihq =>
      obtain ⟨hp, hq⟩ := Bool.or_eq_false_iff.mp h
      exact ⟨ihp hp, ihq hq⟩
  | star body ih => exact ih h
  | noted other body ih =>
      obtain ⟨hother, hbody⟩ := Bool.or_eq_false_iff.mp h
      exact ⟨fun hsame => absurd hsame (by simpa using hother), ih hbody⟩
  | _ => trivial

/-- From the first place to the second lie characters that pass the test. -/
def Covers (test : Char → Bool) (place place' : Place σ) : Prop :=
  ∃ front, place.rest = front ++ place'.rest ∧ place'.offset = place.offset + front.length ∧
    ∀ c ∈ front, test c = true

theorem Covers.refl (place : Place σ) : Covers test place place := ⟨[], rfl, rfl, by simp⟩

theorem Covers.trans {place'' : Place σ} (h : Covers test place place')
    (h' : Covers test place' place'') : Covers test place place'' := by
  obtain ⟨front, hrest, hoffset, hfront⟩ := h
  obtain ⟨front', hrest', hoffset', hfront'⟩ := h'
  refine ⟨front ++ front', ?_, ?_, ?_⟩
  · rw [hrest, hrest', List.append_assoc]
  · rw [hoffset', hoffset, List.length_append, Nat.add_assoc]
  · exact List.forall_mem_append.mpr ⟨hfront, hfront'⟩

/-- A pattern covers no other characters than its tests allow. -/
theorem CoversOnly.covers (h : p.CoversOnly test) (hplace : place' ∈ p.reached place) :
    Covers test place place' := by
  induction p generalizing place place' with
  | empty =>
      obtain rfl : place' = place := List.mem_singleton.mp hplace
      exact Covers.refl _
  | one accepts =>
      obtain ⟨c, rest, hrest, hc, rfl⟩ := mem_reached_one.mp hplace
      exact ⟨[c], hrest, rfl, by simpa using h c hc⟩
  | seq p q ihp ihq =>
      obtain ⟨mid, hmid, hlast⟩ := mem_reached_seq.mp hplace
      exact (ihp h.1 hmid).trans (ihq h.2 hlast)
  | alt p q ihp ihq =>
      rcases mem_reached_alt.mp hplace with hp | hq
      · exact ihp h.1 hp
      · exact ihq h.2 hq
  | many greed accepts =>
      obtain ⟨front, rest, hrest, hfront, rfl⟩ := mem_reached_many.mp hplace
      exact ⟨front, hrest, rfl, fun c hc => h c (hfront c hc)⟩
  | star body ih =>
      exact of_mem_iterated (P := Covers test place)
        (fun _ _ hhere hmid => hhere.trans (ih h hmid)) _ (Covers.refl place) hplace
  | noted slot body ih =>
      obtain ⟨mid, hmid, rfl⟩ := mem_reached_noted.mp hplace
      have hcovers : Covers test place mid := ih h hmid
      exact hcovers
  | notAhead body ih => exact (mem_reached_notAhead.mp hplace).2 ▸ Covers.refl _
  | notBehind rejects => exact (mem_reached_notBehind.mp hplace).2 ▸ Covers.refl _
  | wordEdge => exact (mem_reached_wordEdge.mp hplace).2 ▸ Covers.refl _
  | lineStart => exact (mem_reached_lineStart.mp hplace).2 ▸ Covers.refl _
  | finish => exact (mem_reached_finish.mp hplace).2 ▸ Covers.refl _

/-- All that has been noted under the name so far passes the test. -/
def NotedOnly (test : Char → Bool) (slot : σ) (place : Place σ) : Prop :=
  ∀ note ∈ place.notes, note.1 = slot → ∀ c ∈ note.2.text, test c = true

theorem Covers.note {slot other : σ} (h : other = slot → Covers test place place')
    (hplace' : NotedOnly test slot place') : NotedOnly test slot (.note other place place') := by
  intro note hnote hslot
  rcases List.mem_cons.mp hnote with rfl | hold
  · obtain ⟨front, hrest, hoffset, hfront⟩ := h hslot
    have htext : (Stretch.mk place.rest (place'.offset - place.offset)).text = front := by
      simp [Stretch.text, hrest, hoffset]
    show ∀ c ∈ (Stretch.mk place.rest (place'.offset - place.offset)).text, test c = true
    rw [htext]
    exact hfront
  · exact hplace' note hold hslot

/-- A pattern keeps it that what is noted under the name passes the test. -/
theorem NotesOnly.notedOnly (h : p.NotesOnly test slot) (hstart : NotedOnly test slot place)
    (hplace : place' ∈ p.reached place) : NotedOnly test slot place' := by
  induction p generalizing place place' with
  | empty =>
      obtain rfl : place' = place := List.mem_singleton.mp hplace
      exact hstart
  | one accepts =>
      obtain ⟨c, rest, -, -, rfl⟩ := mem_reached_one.mp hplace
      exact hstart
  | seq p q ihp ihq =>
      obtain ⟨mid, hmid, hlast⟩ := mem_reached_seq.mp hplace
      exact ihq h.2 (ihp h.1 hstart hmid) hlast
  | alt p q ihp ihq =>
      rcases mem_reached_alt.mp hplace with hp | hq
      · exact ihp h.1 hstart hp
      · exact ihq h.2 hstart hq
  | many greed accepts =>
      obtain ⟨front, rest, -, -, rfl⟩ := mem_reached_many.mp hplace
      exact hstart
  | star body ih =>
      exact of_mem_iterated (P := NotedOnly test slot) (fun _ _ hhere hmid => ih h hhere hmid) _
        hstart hplace
  | noted other body ih =>
      obtain ⟨mid, hmid, rfl⟩ := mem_reached_noted.mp hplace
      exact Covers.note (fun hslot => (h.1 hslot).covers hmid) (ih h.2 hstart hmid)
  | notAhead body ih => exact (mem_reached_notAhead.mp hplace).2 ▸ hstart
  | notBehind rejects => exact (mem_reached_notBehind.mp hplace).2 ▸ hstart
  | wordEdge => exact (mem_reached_wordEdge.mp hplace).2 ▸ hstart
  | lineStart => exact (mem_reached_lineStart.mp hplace).2 ▸ hstart
  | finish => exact (mem_reached_finish.mp hplace).2 ▸ hstart

/-! ### Matches -/

/-- What a match notes under the name passes the test. -/
theorem NotesOnly.text [DecidableEq σ] {found : Match σ} (h : p.NotesOnly test slot)
    {place : Place σ} (hnotes : place.notes = [])
    (hfound : p.matchAt? place = some found) : ∀ c ∈ found.text slot, test c = true := by
  obtain ⟨last, hlast, rfl⟩ := Option.map_eq_some_iff.mp hfound
  have hstart : NotedOnly test slot place := by simp [NotedOnly, hnotes]
  have hnoted := h.notedOnly hstart (mem_reached_of_run hlast)
  unfold Match.text Match.text?
  cases hfind : last.notes.find? (·.1 = slot) with
  | none => simp
  | some note =>
      have hslot : note.1 = slot := by simpa using List.find?_some hfind
      simpa [hfind] using hnoted note (List.mem_of_find?_eq_some hfind) hslot

/-- The matches that a search finds are matches at some place. -/
theorem exists_matchAt?_of_findFrom? {before : Option Char} {offset : Nat} {rest : Text}
    {found : Match σ} (h : p.findFrom? before offset rest = some found) :
    ∃ place : Place σ, place.notes = [] ∧ p.matchAt? place = some found := by
  induction rest generalizing before offset with
  | nil => exact ⟨_, rfl, h⟩
  | cons c rest ih =>
      rw [findFrom?] at h
      split at h
      · rename_i other hother
        exact ⟨_, rfl, hother.trans h⟩
      · exact ih h

theorem exists_matchAt?_of_mem_findAllFrom {skip : Nat} {before : Option Char} {offset : Nat}
    {rest : Text} {found : Match σ} (h : found ∈ p.findAllFrom skip before offset rest) :
    ∃ place : Place σ, place.notes = [] ∧ p.matchAt? place = some found := by
  induction rest generalizing skip before offset with
  | nil => simp [findAllFrom] at h
  | cons c rest ih =>
      cases skip with
      | succ skip => exact ih h
      | zero =>
          rw [findAllFrom] at h
          split at h
          · rename_i other hother
            rcases List.mem_cons.mp h with rfl | hlater
            · exact ⟨_, rfl, hother⟩
            · exact ih hlater
          · exact ih h

end Diagrams.Pattern
