/-
Where the noted lists of key columns stand.

A list of key columns is noted between its brackets, and what stands in front of its
opening bracket is what a list begins with.  So of a note alone it can be told that
there is such a list in the text.
-/
import Diagrams.Proofs.Pattern.Noted
import Diagrams.Proofs.Schema.OpenList

namespace Diagrams

namespace Pattern

variable {σ : Type} [DecidableEq σ] {place place' : Place σ}

/-- A pattern notes stretches under its own names only. -/
theorem mem_notes_of_mem_reached {p : Pattern σ} (h : place' ∈ p.reached place) :
    ∀ note ∈ place'.notes, note ∈ place.notes ∨ p.mayNote note.1 = true := by
  induction p generalizing place place' with
  | empty =>
      obtain rfl : place' = place := List.mem_singleton.mp h
      exact fun _ => .inl
  | one accepts =>
      obtain ⟨c, rest, -, -, rfl⟩ := mem_reached_one.mp h
      exact fun _ => .inl
  | seq p q ihp ihq =>
      obtain ⟨mid, hmid, hlast⟩ := mem_reached_seq.mp h
      intro note hnote
      rcases ihq hlast note hnote with hearlier | hq
      · exact (ihp hmid note hearlier).imp_right fun hp => Bool.or_eq_true_iff.mpr (.inl hp)
      · exact .inr (Bool.or_eq_true_iff.mpr (.inr hq))
  | alt p q ihp ihq =>
      intro note hnote
      rcases mem_reached_alt.mp h with hp | hq
      · exact (ihp hp note hnote).imp_right fun hp => Bool.or_eq_true_iff.mpr (.inl hp)
      · exact (ihq hq note hnote).imp_right fun hq => Bool.or_eq_true_iff.mpr (.inr hq)
  | many greed accepts =>
      obtain ⟨front, rest, -, -, rfl⟩ := mem_reached_many.mp h
      exact fun _ => .inl
  | star body ih =>
      refine of_mem_iterated (P := fun mid => ∀ note ∈ mid.notes,
        note ∈ place.notes ∨ body.mayNote note.1 = true)
        (fun here mid hhere hmid note hnote => ?_) _ (fun _ => .inl) h
      exact (ih hmid note hnote).elim (hhere note) .inr
  | noted slot body ih =>
      obtain ⟨mid, hmid, rfl⟩ := mem_reached_noted.mp h
      intro note hnote
      rcases List.mem_cons.mp hnote with rfl | hearlier
      · exact .inr (Bool.or_eq_true_iff.mpr (.inl (by simp)))
      · exact (ih hmid note hearlier).imp_right fun hbody => Bool.or_eq_true_iff.mpr (.inr hbody)
  | notAhead body ih => exact (mem_reached_notAhead.mp h).2 ▸ fun _ => .inl
  | notBehind rejects => exact (mem_reached_notBehind.mp h).2 ▸ fun _ => .inl
  | wordEdge => exact (mem_reached_wordEdge.mp h).2 ▸ fun _ => .inl
  | lineStart => exact (mem_reached_lineStart.mp h).2 ▸ fun _ => .inl
  | finish => exact (mem_reached_finish.mp h).2 ▸ fun _ => .inl

end Pattern

namespace Schema

open Pattern

/-- The names under which lists of key columns are noted. -/
def isList (slot : Slot) : Bool := slot == .columns || slot == .targetColumns

/-- The stretch is what stands between two brackets in the text, and a list begins with the
first. -/
def ListedIn (text : Text) (stretch : Stretch) : Prop :=
  ∃ front behind, text = front ++ '(' :: stretch.onward ∧
    stretch.onward = stretch.text ++ ')' :: behind ∧ ')' ∉ stretch.text ∧ OpensList front

theorem ListedIn.append_left {text : Text} {stretch : Stretch} (h : ListedIn text stretch)
    (near : Text) : ListedIn (near ++ text) stretch := by
  obtain ⟨front, behind, rfl, honward, hclosing, hopens⟩ := h
  exact ⟨near ++ front, behind, (List.append_assoc ..).symm, honward, hclosing,
    hopens.append_left near⟩

/-- What a pattern notes as a list of key columns is one. -/
def NotesLists (p : Pattern Slot) : Prop :=
  ∀ place mid, mid ∈ p.reached place → ∀ note ∈ mid.notes, isList note.1 = true →
    note ∈ place.notes ∨ ListedIn place.rest note.2

namespace NotesLists

variable {p q : Pattern Slot}

theorem seq (hp : NotesLists p) (hq : NotesLists q) : NotesLists (.seq p q) := by
  intro place last hlast note hnote hlist
  obtain ⟨mid, hmid, hlast⟩ := mem_reached_seq.mp hlast
  rcases hq mid last hlast note hnote hlist with hearlier | hlisted
  · exact hp place mid hmid note hearlier hlist
  · obtain ⟨covered, hcovered, -, -⟩ := leads_of_mem_reached hmid
    exact .inr (hcovered ▸ hlisted.append_left covered)

theorem append {ps qs : List (Pattern Slot)} (hp : NotesLists (all ps)) (hq : NotesLists (all qs)) :
    NotesLists (all (ps ++ qs)) := by
  intro place last hlast
  rw [reached_all_append] at hlast
  exact hp.seq hq place last hlast

/-- A pattern that notes no list at all. -/
theorem of_mayNote (h : p.mayNote .columns = false ∧ p.mayNote .targetColumns = false) :
    NotesLists p := by
  intro place mid hmid note hnote hlist
  refine (mem_notes_of_mem_reached hmid note hnote).imp_right fun hmay => ?_
  rcases Bool.or_eq_true_iff.mp hlist with hslot | hslot
  · rw [eq_of_beq hslot, h.1] at hmay
    exact absurd hmay Bool.false_ne_true
  · rw [eq_of_beq hslot, h.2] at hmay
    exact absurd hmay Bool.false_ne_true

/-- A pattern that reads a list up to its closing bracket, or nothing. -/
def ReadsList (list : Pattern Slot) : Prop :=
  ∀ place mid, mid ∈ list.reached place → ∀ note ∈ mid.notes, note ∈ place.notes ∨
    ∃ behind, place.rest = '(' :: note.2.onward ∧ note.2.onward = note.2.text ++ ')' :: behind ∧
      ')' ∉ note.2.text

theorem readsList_columnList (slot : Slot) : ReadsList (Grammar.columnList slot) := by
  intro place mid hmid note hnote
  unfold Grammar.columnList at hmid
  simp only [mem_reached_all_cons, mem_reached_all_nil, mem_reached_lit, mem_reached_noted,
    mem_reached_atLeastOne] at hmid
  obtain ⟨_, ⟨after, hplace, rfl⟩, _, ⟨_, ⟨names, closing, hnames, -, hkept, rfl⟩, rfl⟩, _,
    ⟨behind, hclosing, rfl⟩, rfl⟩ := hmid
  obtain rfl : after = names ++ closing := hnames
  obtain rfl : closing = ')' :: behind := hclosing
  rw [@Place.note_past _ slot (place.past ['('] (names ++ ')' :: behind)) names
    (')' :: behind) rfl] at hnote
  rcases List.mem_cons.mp hnote with rfl | hearlier
  · have htext : (Stretch.mk (names ++ ')' :: behind) names.length).text = names := List.take_left
    refine .inr ⟨behind, hplace, by rw [htext], ?_⟩
    rw [htext]
    exact fun hmem => absurd (hkept ')' hmem) (by decide)
  · exact .inl hearlier

theorem readsList_opt_columnList (slot : Slot) : ReadsList (opt (Grammar.columnList slot)) := by
  intro place mid hmid
  rcases mem_reached_opt.mp hmid with hlist | rfl
  · exact readsList_columnList slot place mid hlist
  · exact fun _ => .inl

/-- A list behind what lists begin with. -/
theorem behind {ps : List (Pattern Slot)} {list : Pattern Slot} (hlead : LeadsToList (all ps))
    (hhalts : (all ps).halts (some '(') false = true)
    (hmay : (all ps).mayNote .columns = false ∧ (all ps).mayNote .targetColumns = false)
    (hlist : ReadsList list) : NotesLists (all (ps ++ [list])) := by
  intro place last hlast note hnote hslot
  rw [reached_all_append, List.mem_flatMap] at hlast
  obtain ⟨mid, hmid, hlast⟩ := hlast
  rcases hlist mid last hlast note hnote with hearlier | ⟨behind, hmidRest, honward, hclosing⟩
  · exact of_mayNote hmay place mid hmid note hearlier hslot
  · obtain ⟨covered, hcovered, hopens⟩ := exists_opensList hlead hhalts hmid hmidRest
    exact .inr ⟨covered, behind, hcovered, honward, hclosing, hopens []⟩

/-! ### The patterns of the grammar -/

open Grammar

theorem references : NotesLists references := by
  have hlist : NotesLists (all ([leading ["REFERENCES"], identifier .target, spaces] ++
      [opt (columnList .targetColumns)])) :=
    behind leadsToList_references (by decide) (by decide) (readsList_opt_columnList .targetColumns)
  exact hlist

theorem inlineReferences : NotesLists inlineReferences := .seq (of_mayNote (by decide)) references

theorem target : NotesLists (all [spaces, Grammar.references]) :=
  .seq (of_mayNote (by decide)) references

theorem primaryKeyPart : NotesLists primaryKeyPart := by
  have hlist : NotesLists (all ([phrase ["PRIMARY", "KEY"], spaces, indexName, indexMethod] ++
      [columnList .columns])) :=
    behind leadsToList_primaryKeyPart (by decide) (by decide) (readsList_columnList .columns)
  exact .seq (of_mayNote (by decide)) hlist

theorem foreignKeyPart : NotesLists foreignKeyPart := by
  have hlist : NotesLists (all ([phrase ["FOREIGN", "KEY"], spaces, indexName] ++
      [columnList .columns])) :=
    behind leadsToList_foreignKeyPart (by decide) (by decide) (readsList_columnList .columns)
  exact .seq (of_mayNote (by decide)) (hlist.append target)

theorem primaryKeyAnywhere : NotesLists primaryKeyAnywhere := by
  have hlist : NotesLists (all ([phrase ["PRIMARY", "KEY"], spaces, indexMethod] ++
      [columnList .columns])) :=
    behind leadsToList_primaryKeyAnywhere (by decide) (by decide) (readsList_columnList .columns)
  exact hlist

theorem foreignKeyAnywhere : NotesLists foreignKeyAnywhere := by
  have hlist : NotesLists (all ([phrase ["FOREIGN", "KEY"], spaces] ++ [columnList .columns])) :=
    behind leadsToList_foreignKeyAnywhere (by decide) (by decide) (readsList_columnList .columns)
  exact hlist.append target

theorem addPrimaryKey : NotesLists addPrimaryKey := .seq (of_mayNote (by decide)) primaryKeyAnywhere

theorem addForeignKey : NotesLists addForeignKey := .seq (of_mayNote (by decide)) foreignKeyAnywhere

/-! ### Matches -/

/-- The lists that a match notes stand in what lies ahead of it. -/
theorem listedIn (h : NotesLists p) {place : Place Slot} (hnotes : place.notes = [])
    {found : Match Slot} (hfound : p.matchAt? place = some found) {note : Slot × Stretch}
    (hnote : note ∈ found.last.notes) (hlist : isList note.1 = true) :
    ListedIn place.rest note.2 := by
  obtain ⟨last, hlast, rfl⟩ := Option.map_eq_some_iff.mp hfound
  refine (h place last (mem_reached_of_run hlast) note hnote hlist).resolve_left ?_
  rw [hnotes]
  exact List.not_mem_nil

end NotesLists

end Schema

end Diagrams
