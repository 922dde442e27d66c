/-
Searching for what begins with a word.

A search for keys or marks is a search for a word with a blank behind it, whatever follows
then.  So a stretch of a text is passed over where it holds no such word: where none of its
characters is a letter, where its words do not end like the one that is wanted, and where no
blank follows them.  Written names stand in front of commas, quotes and brackets, so they are
passed over whatever they say.
-/
import Diagrams.Proofs.Pattern.Stretch
import Diagrams.Proofs.Schema.KeyPart

namespace Diagrams.Schema

open Pattern

/-- Every match begins with the word, and a blank stands behind it. -/
structure BeginsWith (word : String) (p : Pattern Slot) : Prop where
  letters : isLetters word = true
  begins : ∀ place mid : Place Slot, mid ∈ p.reached place →
    ∃ text c rest, place.rest = text ++ c :: rest ∧ Spells word text ∧ isBlank c = true

namespace BeginsWith

variable {word : String} {p : Pattern Slot} {ps : List (Pattern Slot)}

/-- A phrase of two words. -/
theorem phrase {second : String} (hword : isLetters word = true) :
    BeginsWith word (all (Grammar.phrase [word, second] :: ps)) := by
  refine ⟨hword, fun place mid hmid => ?_⟩
  obtain ⟨_, hphrase, -⟩ := mem_reached_all_cons.mp hmid
  obtain ⟨_, hkeyword, hgap⟩ := mem_reached_all_cons.mp
    (show _ ∈ (all [keyword word, gap, keyword second]).reached place from hphrase)
  obtain ⟨text, rest, hrest, hspells, rfl⟩ := mem_reached_keyword.mp hkeyword
  obtain ⟨_, hgap, -⟩ := mem_reached_all_cons.mp hgap
  obtain ⟨c, hc, hblank⟩ := Opens.atLeastOne _ _ hgap
  obtain ⟨rest, rfl⟩ : ∃ behind, rest = c :: behind := by
    cases rest with
    | nil => exact absurd hc (by simp)
    | cons d rest => exact ⟨rest, by rw [show d = c by simpa using hc]⟩
  exact ⟨text, c, rest, hrest, hspells, hblank⟩

/-- Words with gaps after them. -/
theorem leading {words : List String} (hword : isLetters word = true) :
    BeginsWith word (all (Grammar.leading (word :: words) :: ps)) := by
  refine ⟨hword, fun place mid hmid => ?_⟩
  obtain ⟨_, hleading, -⟩ := mem_reached_all_cons.mp hmid
  obtain ⟨_, rest, hrest, hphrase, -⟩ := mem_reached_leading.mp hleading
  cases hphrase with
  | @cons _ _ text blanks after hspells hne hblank htail =>
      obtain ⟨c, blanks, rfl⟩ := List.exists_cons_of_ne_nil hne
      exact ⟨text, c, blanks ++ (after ++ rest), by rw [hrest]; simp, hspells,
        hblank c List.mem_cons_self⟩

/-- An edge in front of the word. -/
theorem edge (h : BeginsWith word (all ps)) : BeginsWith word (all (wordEdge :: ps)) := by
  refine ⟨h.letters, fun place mid hmid => ?_⟩
  obtain ⟨_, hedge, hbehind⟩ := mem_reached_all_cons.mp hmid
  obtain ⟨-, rfl⟩ := mem_reached_wordEdge.mp hedge
  exact h.begins _ mid hbehind

theorem seq {q : Pattern Slot} (h : BeginsWith word p) : BeginsWith word (.seq p q) := by
  refine ⟨h.letters, fun place mid hmid => ?_⟩
  obtain ⟨mid', hmid', -⟩ := mem_reached_seq.mp hmid
  exact h.begins place mid' hmid'

/-! ### What is passed over -/

section

variable {front rest : Text} (h : BeginsWith word p)

include h

theorem skips_of_forall (hnone : ∀ near c far, front = near ++ c :: far → ∀ text d behind,
    c :: (far ++ rest) = text ++ d :: behind → Spells word text → isBlank d = true → False) :
    p.Skips front rest := by
  intro near c far hsplit place hplace
  refine matchAt?_eq_none_iff.mpr fun mid hmid => ?_
  obtain ⟨text, d, behind, hrest, hspells, hblank⟩ := h.begins place mid hmid
  exact hnone near c far hsplit text d behind (hplace.symm.trans hrest) hspells hblank

/-- No match starts with a character that is no letter. -/
theorem skips_of_not_word (hfront : ∀ c ∈ front, isWordChar c = false) : p.Skips front rest := by
  refine h.skips_of_forall fun near c far hsplit text d behind heq hspells _ => ?_
  have hfirst : c ∈ (text ++ d :: behind).head? := by
    rw [← heq]
    rfl
  have hletter := head?_spells hspells h.letters c hfirst
  rw [hfront c (by rw [hsplit]; simp)] at hletter
  exact Bool.noConfusion hletter

theorem skips_space : p.Skips [' '] rest :=
  h.skips_of_not_word (List.forall_mem_singleton.mpr (by decide))

/-- No match starts in a word that does not end like the wanted one. -/
theorem skips_of_tails (hfront : ∀ c ∈ front, isWordChar c = true)
    (hrest : ∀ c ∈ rest.head?, isWordChar c = false)
    (htails : ∀ text ∈ front.tails, ¬ Spells word text) : p.Skips front rest := by
  refine h.skips_of_forall fun near c far hsplit text d behind heq hspells hblank => ?_
  have hword : ∀ e ∈ c :: far, isWordChar e = true :=
    fun e he => hfront e (by rw [hsplit]; simp [he])
  obtain ⟨rfl, -⟩ := append_inj_of_stop hword (isWordChar_of_spells hspells h.letters) hrest
    (forall_head?_cons (isWordChar_of_isBlank hblank) behind) (show (c :: far) ++ rest = _ from heq)
  exact htails (c :: far) ((List.mem_tails _ _).mpr ⟨near, hsplit.symm⟩) hspells

/-- No match starts in words with gaps after them if none ends like the wanted one. -/
theorem skips_spaced {words : List String} (hwords : words.all isLetters = true)
    (htails : ∀ other ∈ words, ∀ text ∈ other.toList.tails, ¬ Spells word text) :
    p.Skips (spaced words) rest := by
  induction words with
  | nil => exact .nil
  | cons other words ih =>
      rw [List.all_cons, Bool.and_eq_true] at hwords
      obtain ⟨hother, hothers⟩ := List.forall_mem_cons.mp htails
      have hhere : p.Skips other.toList ((' ' :: spaced words) ++ rest) :=
        h.skips_of_tails (isWordChar_of_isLetters hwords.1) (forall_head?_cons (by decide) _) hother
      exact hhere.append (h.skips_space.append (ih hwords.2 hothers))

/-- No match starts where no blank comes in time. -/
theorem skips_of_not_blank (hfront : ∀ c ∈ front, isBlank c = false)
    (hrest : ∀ c ∈ rest.head?, isWordChar c = false ∧ isBlank c = false) : p.Skips front rest := by
  refine h.skips_of_forall fun near c far hsplit text d behind heq hspells hblank => ?_
  have hletters := isWordChar_of_spells hspells h.letters
  rcases append_eq_append_cons (show (c :: far) ++ rest = text ++ d :: behind from heq) with
    ⟨middle, hmiddle, -⟩ | ⟨middle, htext, hbehind⟩
  · -- The blank stands in the stretch.
    have hd := hfront d (by rw [hsplit, hmiddle]; simp)
    rw [hblank] at hd
    exact Bool.noConfusion hd
  · cases middle with
    | nil =>
        have hd := (hrest d (by rw [hbehind]; rfl)).2
        rw [hblank] at hd
        exact Bool.noConfusion hd
    | cons e middle =>
        have he := (hrest e (by rw [hbehind]; rfl)).1
        rw [hletters e (by rw [htext]; simp)] at he
        exact Bool.noConfusion he

theorem findFrom?_nil (before : Option Char) (offset : Nat) :
    p.findFrom? before offset [] = none := by
  refine matchAt?_eq_none_iff.mpr fun mid hmid => ?_
  obtain ⟨text, c, behind, hrest, -⟩ := h.begins _ mid hmid
  exact absurd hrest (by simp)

/-- A search for the first match goes on behind a space. -/
theorem findFrom?_space (before : Option Char) (offset : Nat) (rest : Text) :
    p.findFrom? before offset (' ' :: rest) = p.findFrom? (some ' ') (offset + 1) rest :=
  h.skips_space.findFrom? before offset

/-! ### Written names -/

open Written

/-- No match starts in a name that no blank follows. -/
theorem skips_name {written : Name} (hname : isIdentifier written.name = true)
    (hrest : ∀ c ∈ rest.head?, isWordChar c = false ∧ isBlank c = false) :
    p.Skips written.text rest :=
  h.skips_of_not_blank (fun c hc => isBlank_of_isNameChar (Name.isNameChar hname c hc)) hrest

/-- No match starts in a list of names. -/
theorem skips_nameList {names : List Name}
    (hnames : ∀ written ∈ names, isIdentifier written.name = true)
    (hrest : ∀ c ∈ rest.head?, isWordChar c = false ∧ isBlank c = false) :
    p.Skips (nameList names) rest := by
  unfold nameList
  induction names with
  | nil => exact .nil
  | cons written names ih =>
      obtain ⟨hwritten, hothers⟩ := List.forall_mem_cons.mp hnames
      cases names with
      | nil =>
          rw [List.map_singleton, Text.joined_singleton]
          exact h.skips_name hwritten hrest
      | cons next others =>
          have hseparator : p.Skips partSeparator
              (Text.joined partSeparator ((next :: others).map Name.text) ++ rest) :=
            h.skips_of_not_word
              (List.forall_mem_cons.mpr ⟨by decide, List.forall_mem_singleton.mpr (by decide)⟩)
          rw [List.map_cons, List.map_cons, Text.joined_cons_cons]
          refine (h.skips_name hwritten ?_).append (hseparator.append (ih hothers))
          intro c hc
          obtain rfl : ',' = c := by simpa using hc
          decide

theorem skips_bracketed {names : List Name}
    (hnames : ∀ written ∈ names, isIdentifier written.name = true) :
    p.Skips (bracketed (nameList names)) rest := by
  have hopening : p.Skips ['('] ((nameList names ++ [')']) ++ rest) :=
    h.skips_of_not_word (List.forall_mem_singleton.mpr (by decide))
  have hclosing : p.Skips [')'] rest :=
    h.skips_of_not_word (List.forall_mem_singleton.mpr (by decide))
  refine hopening.append ((h.skips_nameList hnames fun c hc => ?_).append hclosing)
  obtain rfl : ')' = c := by simpa using hc
  decide

end

end BeginsWith

end Diagrams.Schema
