/-
Written columns, as the patterns for keys and constraints see them.

These patterns are tried on a column before the pattern for columns is.  All but one of them want
a word that starts a constraint, and the only word a column starts with is its name.  The last
one, for an index without a name of its own, is satisfied with fewer words, but what it can pass
over in front of a bracket is no column: either a digit comes behind the bracket, as the length of
a type, or there are too many words in front of it, the last two of them the word for a reference
and the table that is referred to.
-/
import Diagrams.Proofs.Schema.Clauses
import Diagrams.Proofs.Schema.Salvage

namespace Diagrams.Schema.Written

open Pattern

variable {place : Place Slot}

/-! ### A column is no constraint -/

/-- No column starts with a word that starts a constraint. -/
theorem LinkedColumn.not_spells {column : LinkedColumn} (h : column.WellFormed) {word : String}
    {text rest : Text} (heq : column.text = text ++ rest) (hspells : Spells word text)
    (hletters : isLetters word = true) (hconstraint : constraintWords.contains word.toList = true)
    (hcapitals : word.toList.all Char.isUpper = true)
    (hrest : ∀ c ∈ rest.head?, isWordChar c = false) : False := by
  have hname := Name.capitals_of_spells h.name heq hspells hletters hcapitals hrest
    (forall_head?_cons (by decide) _)
  have hword := h.noConstraint
  rw [isConstraintWord, hname, hconstraint] at hword
  exact Bool.noConfusion hword

theorem LinkedColumn.head?_text {column : LinkedColumn} (h : column.WellFormed) :
    ∀ c ∈ (Place.start column.text : Place Slot).rest.head?, isBlank c = false :=
  (LinkedColumn.solid h).head?

/-- A word that starts a constraint leads nowhere with a gap behind it. -/
theorem LinkedColumn.not_mem_reached_gap {column : LinkedColumn} (h : column.WellFormed)
    {word : String} (hletters : isLetters word = true)
    (hconstraint : constraintWords.contains word.toList = true)
    (hcapitals : word.toList.all Char.isUpper = true) {mid mid' : Place Slot}
    (hkeyword : mid ∈ (keyword word).reached (.start column.text)) :
    ¬ mid' ∈ (gap : Pattern Slot).reached mid := by
  intro hgap
  obtain ⟨text, rest, hrest, hspells, rfl⟩ := mem_reached_keyword.mp hkeyword
  obtain ⟨blanks, rest', hrest', hne, hblank, -⟩ := mem_reached_atLeastOne.mp hgap
  rw [Place.rest_past] at hrest'
  refine LinkedColumn.not_spells h hrest hspells hletters hconstraint hcapitals ?_
  rw [hrest']
  exact head?_blanks hne hblank

theorem LinkedColumn.not_mem_reached_leading {column : LinkedColumn} (h : column.WellFormed)
    {word : String} (hletters : isLetters word = true)
    (hconstraint : constraintWords.contains word.toList = true)
    (hcapitals : word.toList.all Char.isUpper = true) (mid : Place Slot) :
    ¬ mid ∈ (Grammar.leading [word]).reached (.start column.text) := by
  intro hleading
  obtain ⟨_, hkeyword, hgap⟩ := mem_reached_seq.mp
    (show mid ∈ (seq (keyword word) gap).reached _ from hleading)
  exact LinkedColumn.not_mem_reached_gap h hletters hconstraint hcapitals hkeyword hgap

theorem LinkedColumn.reached_constraintName {column : LinkedColumn} (h : column.WellFormed) :
    Grammar.constraintName.reached (.start column.text) = [.start column.text] :=
  Schema.reached_constraintName (LinkedColumn.head?_text h)
    (LinkedColumn.not_mem_reached_leading h (by decide) (by decide) (by decide))

/-- A column matches no pattern that starts with the name of a constraint and leads nowhere without
one. -/
theorem LinkedColumn.matchStart?_eq_none {column : LinkedColumn} (h : column.WellFormed)
    {ps : List (Pattern Slot)} (hnone : ∀ mid, ¬ mid ∈ (all ps).reached (.start column.text)) :
    (all (Grammar.constraintName :: ps)).matchStart? column.text = none := by
  refine matchStart?_eq_none_iff.mpr fun mid hmid => ?_
  obtain ⟨mid', hname, hmid⟩ := mem_reached_all_cons.mp hmid
  rw [LinkedColumn.reached_constraintName h] at hname
  obtain rfl := List.mem_singleton.mp hname
  exact hnone mid hmid

/-- A column is no key. -/
theorem LinkedColumn.matchStart?_key {column : LinkedColumn} (h : column.WellFormed) {word : String}
    {ps : List (Pattern Slot)} (hletters : isLetters word = true)
    (hconstraint : constraintWords.contains word.toList = true)
    (hcapitals : word.toList.all Char.isUpper = true) :
    (all (Grammar.constraintName :: Grammar.phrase [word, "KEY"] :: ps)).matchStart? column.text
      = none := by
  refine LinkedColumn.matchStart?_eq_none h fun mid hmid => ?_
  obtain ⟨_, hphrase, -⟩ := mem_reached_all_cons.mp hmid
  obtain ⟨_, hkeyword, hphrase⟩ := mem_reached_all_cons.mp
    (show _ ∈ (all [keyword word, gap, keyword "KEY"]).reached _ from hphrase)
  obtain ⟨_, hgap, -⟩ := mem_reached_all_cons.mp hphrase
  exact LinkedColumn.not_mem_reached_gap h hletters hconstraint hcapitals hkeyword hgap

/-! ### What stands in front of a bracket -/

theorem not_mem_of_isNameChar {text : Text} {c : Char} (h : ∀ d ∈ text, isNameChar d = true)
    (hc : isNameChar c = false) : c ∉ text := by
  intro hmem
  rw [h c hmem] at hc
  exact Bool.noConfusion hc

/-- Marks are made of letters and spaces. -/
theorem Mark.not_mem (marks : List Mark) {c : Char} (hc : isWordChar c = false) (hspace : c ≠ ' ') :
    c ∉ marks.flatMap Mark.text := by
  intro hmem
  obtain ⟨mark, -, hmem⟩ := List.mem_flatMap.mp hmem
  obtain ⟨hfirst, hsecond⟩ := mark.isLetters_words
  simp only [Mark.text, List.mem_cons, List.mem_append] at hmem
  rcases hmem with hmem | hmem | hmem | hmem
  · exact hspace hmem
  · exact not_mem_of_forall (isWordChar_of_isLetters hfirst) hc hmem
  · exact hspace hmem
  · exact not_mem_of_forall (isWordChar_of_isLetters hsecond) hc hmem

/-- The lengths of a type are digits with commas between them. -/
theorem DataType.mem_lengths {type : DataType} (h : type.WellFormed) :
    ∀ c ∈ Text.joined [','] type.lengths, isDecimalDigit c = true ∨ c = ',' := by
  refine Text.forall_mem_joined (fun c hc => .inr (List.mem_singleton.mp hc)) ?_
  exact fun length hlength c hc => .inl (List.all_eq_true.mp (h.lengths length hlength).2 c hc)

theorem DataType.not_mem_lengths {type : DataType} (h : type.WellFormed) {c : Char}
    (hc : isWordChar c = false) (hcomma : c ≠ ',') : c ∉ Text.joined [','] type.lengths := by
  intro hmem
  rcases DataType.mem_lengths h c hmem with hdigit | hmem
  · rw [isWordChar_of_isDecimalDigit hdigit] at hc
    exact Bool.noConfusion hc
  · exact hcomma hmem

/-- The first length of a type starts with a digit. -/
theorem DataType.head?_lengths {type : DataType} (h : type.WellFormed) (hne : type.lengths ≠ []) :
    ∃ c rest, Text.joined [','] type.lengths = c :: rest ∧ isDecimalDigit c = true := by
  obtain ⟨length, others, hlengths⟩ := List.exists_cons_of_ne_nil hne
  obtain ⟨hlength, hdigits⟩ := h.lengths length (by rw [hlengths]; exact List.mem_cons_self)
  obtain ⟨c, digits, rfl⟩ := List.exists_cons_of_ne_nil hlength
  have hc := List.all_eq_true.mp hdigits c List.mem_cons_self
  rw [hlengths]
  cases others with
  | nil => exact ⟨c, digits, Text.joined_singleton _ _, hc⟩
  | cons other others => exact ⟨c, _, Text.joined_cons_cons _ _ _ _, hc⟩

/-- The first bracket in the clauses of a column belongs to a reference. -/
theorem exists_reference_of_mem {clauses : List Clause} (h : ∀ clause ∈ clauses, clause.WellFormed)
    (hmem : '(' ∈ clauses.flatMap Clause.text) :
    ∃ (former : Text) (target : Name) (rest : Text), clauses.flatMap Clause.text
        = former ++ ' ' :: ("REFERENCES".toList ++ ' ' :: (target.text ++ '(' :: rest)) ∧
      '(' ∉ former ∧ isIdentifier target.name = true := by
  induction clauses with
  | nil => exact absurd hmem List.not_mem_nil
  | cons clause clauses ih =>
      obtain ⟨hclause, hothers⟩ := List.forall_mem_cons.mp h
      cases clause with
      | mark mark =>
          have hmark : '(' ∉ (Clause.mark mark).text := by
            have hmarks := Mark.not_mem [mark] (c := '(') (by decide) (by decide)
            rwa [List.flatMap_singleton] at hmarks
          rw [List.flatMap_cons, List.mem_append] at hmem
          obtain ⟨former, target, rest, hrest, hformer, htarget⟩ :=
            ih hothers (hmem.resolve_left hmark)
          refine ⟨(Clause.mark mark).text ++ former, target, rest, ?_, ?_, htarget⟩
          · rw [List.flatMap_cons, hrest, List.append_assoc]
          · rw [List.mem_append, not_or]
            exact ⟨hmark, hformer⟩
      | reference target column =>
          refine ⟨[], target, nameList [column] ++ ')' :: clauses.flatMap Clause.text, ?_,
            List.not_mem_nil, hclause.1⟩
          rw [List.flatMap_cons]
          simp only [Clause.text, Clause.word, Clause.behind, bracketed, List.append_assoc,
            List.cons_append, List.nil_append]

/-- Behind the first bracket of a column comes a digit, or what stands in front of it ends with the
word for a reference, whose last letter is an s, and another word. -/
theorem LinkedColumn.front_of_bracket {column : LinkedColumn} (h : column.WellFormed)
    {front rest : Text} (heq : column.text = front ++ '(' :: rest) (hfront : '(' ∉ front) :
    (∃ c rest', rest = c :: rest' ∧ isDecimalDigit c = true) ∨
      ∃ before target, front = before ++ ' ' :: target ∧ ' ' ∈ before ∧
        before.getLast? = some 'S' ∧ target ≠ [] ∧ ∀ c ∈ target, isBlank c = false := by
  have hname : '(' ∉ column.name.text := not_mem_of_isNameChar (Name.isNameChar h.name) (by decide)
  have hword : '(' ∉ column.type.word :=
    not_mem_of_forall (isWordChar_of_isIdentifier h.type.word) (by decide)
  have hcut : ∀ {front' rest' : Text}, '(' ∉ front' → column.text = front' ++ '(' :: rest' →
      front = front' ∧ rest = rest' :=
    fun hfront' heq' => append_cons_inj_of_not_mem hfront hfront' (heq.symm.trans heq')
  by_cases hnone : column.type.lengths = []
  · right
    have htext : column.text
        = column.name.text ++ ' ' :: (column.type.word ++ column.clauses.flatMap Clause.text) := by
      simp [LinkedColumn.text, DataType.text, hnone]
    have hmem : '(' ∈ column.clauses.flatMap Clause.text := by
      have hmem : '(' ∈ column.text := by
        rw [heq]
        simp
      simpa [htext, hname, hword] using hmem
    obtain ⟨former, target, latter, hclauses, hformer, htarget⟩ :=
      exists_reference_of_mem h.clauses hmem
    have hreferred : '(' ∉ target.text :=
      not_mem_of_isNameChar (Name.isNameChar htarget) (by decide)
    have hwhole : column.text
        = (((column.name.text ++ ' ' :: (column.type.word ++ (former ++ [' ']))) ++
            "REFERENCES".toList) ++ ' ' :: target.text) ++ '(' :: latter := by
      rw [htext, hclauses]
      simp
    obtain ⟨hfront, -⟩ := hcut (by simp [hname, hword, hformer, hreferred]) hwhole
    refine ⟨_, target.text, hfront, by simp, by rw [List.getLast?_append]; rfl,
      Name.ne_nil htarget, ?_⟩
    exact fun c hc => isBlank_of_isNameChar (Name.isNameChar htarget c hc)
  · left
    obtain ⟨c, digits, hfirst, hc⟩ := DataType.head?_lengths h.type hnone
    have hwhole : column.text = (column.name.text ++ ' ' :: column.type.word) ++
        '(' :: (Text.joined [','] column.type.lengths ++
          ')' :: column.clauses.flatMap Clause.text) := by
      simp [LinkedColumn.text, DataType.text, hnone, bracketed]
    obtain ⟨-, hrest⟩ := hcut (by simp [hname, hword]) hwhole
    exact ⟨c, _, by rw [hrest, hfirst]; rfl, hc⟩

/-! ### What an index may start with -/

/-- The name of an index with blanks behind it, or nothing. -/
def IsIndexName (text : Text) : Prop :=
  text = [] ∨ ∃ name blanks, name ≠ [] ∧ (∀ c ∈ name, isNameChar c = true) ∧
    (∀ c ∈ blanks, isBlank c = true) ∧ text = name ++ blanks

/-- The method of an index with blanks behind it, or nothing. -/
def IsIndexMethod (text : Text) : Prop :=
  text = [] ∨ ∃ word gap name blanks,
    Spells "USING" word ∧ gap ≠ [] ∧ (∀ c ∈ gap, isBlank c = true) ∧
    name ≠ [] ∧ (∀ c ∈ name, isWordChar c = true) ∧ (∀ c ∈ blanks, isBlank c = true) ∧
    text = word ++ (gap ++ (name ++ blanks))

theorem exists_indexName {mid : Place Slot} (h : mid ∈ (opt (all [Grammar.openQuote, name,
    Grammar.closeQuote, spaces])).reached place) :
    ∃ text rest, place.rest = text ++ rest ∧ IsIndexName text ∧ mid = place.past text rest := by
  rcases mem_reached_opt.mp h with h | rfl
  · simp only [mem_reached_all_cons, mem_reached_all_nil] at h
    obtain ⟨_, h₁, _, h₂, _, h₃, _, h₄, rfl⟩ := h
    obtain ⟨opening, rest₁, hrest₁, hopening, rfl⟩ := mem_reached_opt_one.mp h₁
    obtain ⟨name, rest₂, hrest₂, hne, hword, rfl⟩ := mem_reached_atLeastOne.mp h₂
    obtain ⟨closing, rest₃, hrest₃, hclosing, rfl⟩ := mem_reached_opt_one.mp h₃
    obtain ⟨blanks, rest₄, hrest₄, hblank, rfl⟩ := mem_reached_many.mp h₄
    simp only [Place.rest_past] at hrest₂ hrest₃ hrest₄
    have hspelled : Spelled opening [] name closing := ⟨hopening, .inl rfl, hne, hword, hclosing⟩
    refine ⟨(opening ++ ([] ++ (name ++ closing))) ++ blanks, rest₄, ?_,
      .inr ⟨_, blanks, by simp [hne], hspelled.isNameChar, hblank, rfl⟩, by simp⟩
    rw [hrest₁, hrest₂, hrest₃, hrest₄]
    simp
  · exact ⟨[], _, rfl, .inl rfl, (Place.past_nil rfl).symm⟩

theorem exists_indexMethod {mid : Place Slot} (h : mid ∈ Grammar.indexMethod.reached place) :
    ∃ text rest, place.rest = text ++ rest ∧ IsIndexMethod text ∧ mid = place.past text rest := by
  rcases mem_reached_opt.mp h with h | rfl
  · simp only [mem_reached_all_cons, mem_reached_all_nil] at h
    obtain ⟨_, hleading, _, hname, _, hspaces, rfl⟩ := h
    obtain ⟨_, rest₁, hrest₁, hphrase, rfl⟩ := mem_reached_leading.mp hleading
    obtain ⟨word, gap, hspells, hgap, hblank, rfl⟩ := phrase_singleton_iff.mp hphrase
    obtain ⟨name, rest₂, hrest₂, hne, hword, rfl⟩ := mem_reached_atLeastOne.mp hname
    obtain ⟨blanks, rest₃, hrest₃, hblanks, rfl⟩ := mem_reached_many.mp hspaces
    simp only [Place.rest_past] at hrest₂ hrest₃
    refine ⟨word ++ (gap ++ (name ++ blanks)), rest₃, ?_,
      .inr ⟨word, gap, name, blanks, hspells, hgap, hblank, hne, hword, hblanks, rfl⟩, by simp⟩
    rw [hrest₁, hrest₂, hrest₃]
    simp
  · exact ⟨[], _, rfl, .inl rfl, (Place.past_nil rfl).symm⟩

/-- The last word of a text, with what stands in front of it. -/
theorem eq_of_last_word {before word front word' blanks : Text} (hne : word ≠ [])
    (hword : ∀ c ∈ word, isBlank c = false) (hword' : ∀ c ∈ word', isBlank c = false)
    (hblanks : ∀ c ∈ blanks, isBlank c = true) (hfront : ∀ c ∈ front.getLast?, isBlank c = true)
    (h : before ++ ' ' :: word = front ++ (word' ++ blanks)) : before ++ [' '] = front := by
  have hreverse : word.reverse ++ ' ' :: before.reverse
      = blanks.reverse ++ (word'.reverse ++ front.reverse) := by
    simpa using congrArg List.reverse h
  obtain rfl : blanks = [] := by
    by_contra hblank
    obtain ⟨c, others, hcons⟩ := List.exists_cons_of_ne_nil
      (fun heq => hblank (List.reverse_eq_nil_iff.mp heq))
    obtain ⟨d, letters, hletters⟩ := List.exists_cons_of_ne_nil
      (fun heq => hne (List.reverse_eq_nil_iff.mp heq))
    rw [hcons, hletters] at hreverse
    obtain ⟨rfl, -⟩ := List.cons.inj hreverse
    have hc := hblanks d (List.mem_reverse.mp (by rw [hcons]; exact List.mem_cons_self))
    rw [hword d (List.mem_reverse.mp (by rw [hletters]; exact List.mem_cons_self))] at hc
    exact Bool.noConfusion hc
  have hstop : ∀ c ∈ (' ' :: before.reverse).head?, (!isBlank c) = false :=
    forall_head?_cons (by decide) _
  have hstop' : ∀ c ∈ front.reverse.head?, (!isBlank c) = false := by
    intro c hc
    rw [List.head?_reverse] at hc
    rw [hfront c hc]
    rfl
  obtain ⟨-, hbehind⟩ := @append_inj_of_stop (fun c => !isBlank c) _ _ _ _
    (fun c hc => by rw [hword c (List.mem_reverse.mp hc)]; rfl)
    (fun c hc => by rw [hword' c (List.mem_reverse.mp hc)]; rfl) hstop hstop' hreverse
  simpa using congrArg List.reverse hbehind

theorem eq_of_last_blank {before front gap : Text}
    (hbefore : ∀ c ∈ before.getLast?, isBlank c = false)
    (hfront : ∀ c ∈ front.getLast?, isBlank c = false) (hgap : ∀ c ∈ gap, isBlank c = true)
    (h : before ++ [' '] = front ++ gap) : before = front := by
  have hreverse : [' '] ++ before.reverse = gap.reverse ++ front.reverse := by
    simpa using congrArg List.reverse h
  obtain ⟨-, hsame⟩ := append_inj_of_stop forall_blank_space
    (fun c hc => hgap c (List.mem_reverse.mp hc)) (by simpa [List.head?_reverse] using hbefore)
    (by simpa [List.head?_reverse] using hfront) hreverse
  exact List.reverse_injective hsame

/-- The last letter of the word for a method. -/
theorem getLast?_using {word : Text} (h : Spells "USING" word) :
    ∃ c, word.getLast? = some c ∧ matchesLetter 'G' c = true := by
  have hreverse : List.Forall₂ (fun letter c => matchesLetter letter c = true)
      ('G' :: ['N', 'I', 'S', 'U']) word.reverse := List.forall₂_reverse_iff.mpr h
  obtain ⟨c, others, hc, -, hcons⟩ := List.forall₂_cons_left_iff.mp hreverse
  exact ⟨c, by rw [← List.head?_reverse, hcons]; rfl, hc⟩

section

variable {word blanks named before target : Text} (hword : ∀ c ∈ word, isWordChar c = true)
  (hblanks : ∀ c ∈ blanks, isBlank c = true) (htarget : target ≠ [])
  (hsolid : ∀ c ∈ target, isBlank c = false)

include hword hblanks htarget hsolid

/-- A word and the name of an index are two words at most, and a reference has a column in front. -/
theorem not_reference_of_indexName (hnamed : IsIndexName named) (hspace : ' ' ∈ before)
    (hbefore : ∀ c ∈ before.getLast?, isBlank c = false)
    (h : before ++ ' ' :: target = word ++ (blanks ++ named)) : False := by
  have hfirst : ∀ c ∈ word, isBlank c = false := fun c hc => isBlank_of_isWordChar (hword c hc)
  have hnil : ∀ c ∈ ([] : Text).getLast?, isBlank c = true := by simp
  rcases hnamed with rfl | ⟨name, behind, -, hchars, hend, rfl⟩
  · -- The word is the only one.
    rw [List.append_nil] at h
    have hnone := eq_of_last_word htarget hsolid hfirst hblanks hnil h
    exact absurd hnone (by simp)
  · have hsolid' : ∀ c ∈ name, isBlank c = false := fun c hc => isBlank_of_isNameChar (hchars c hc)
    by_cases hjoined : blanks = []
    · -- The name goes on the word.
      rw [hjoined, List.nil_append, ← List.append_assoc] at h
      have hnone := eq_of_last_word htarget hsolid
        (fun c hc => (List.mem_append.mp hc).elim (hfirst c) (hsolid' c)) hend hnil h
      exact absurd hnone (by simp)
    · -- The word stands in front of the last one, and there is none in front of it.
      rw [← List.append_assoc] at h
      have hfront := eq_of_last_word htarget hsolid hsolid' hend
        (forall_getLast?_append_of_forall hjoined hblanks word) h
      have hsame := eq_of_last_blank hbefore (fun c hc => hfirst c (List.mem_of_mem_getLast? hc))
        hblanks hfront
      rw [hsame] at hspace
      exact absurd (hfirst ' ' hspace) (by decide)

/-- What an index may start with, behind a word, does not end with a reference: a method has another
word in front. -/
theorem not_reference_of_index {method : Text} (hnamed : IsIndexName named)
    (hmethod : IsIndexMethod method) (hspace : ' ' ∈ before) (hlast : before.getLast? = some 'S')
    (h : before ++ ' ' :: target = word ++ (blanks ++ (named ++ method))) : False := by
  have hbefore : ∀ c ∈ before.getLast?, isBlank c = false := by
    intro c hc
    obtain rfl : 'S' = c := by simpa [hlast] using hc
    decide
  rcases hmethod with rfl | ⟨marker, gap, name, behind, hspells, hne, hblank, -,
    hletters, hend, rfl⟩
  · rw [List.append_nil] at h
    exact not_reference_of_indexName hword hblanks htarget hsolid hnamed hspace hbefore h
  · obtain ⟨c, hc, hletter⟩ := getLast?_using hspells
    have hspelled : ∀ d ∈ marker, isBlank d = false :=
      fun d hd => isBlank_of_isWordChar (isWordChar_of_spells hspells (by decide) d hd)
    have hsplit : before ++ ' ' :: target
        = ((word ++ (blanks ++ named)) ++ marker ++ gap) ++ (name ++ behind) := by
      rw [h]
      simp
    have hfront := eq_of_last_word htarget hsolid
      (fun d hd => isBlank_of_isWordChar (hletters d hd)) hend
      (forall_getLast?_append_of_forall hne hblank _) hsplit
    have hsame : before = (word ++ (blanks ++ named)) ++ marker := by
      refine eq_of_last_blank hbefore (fun d hd => hspelled d ?_) hblank hfront
      rw [List.getLast?_append, Option.mem_def.mp hc] at hd
      obtain rfl : c = d := by simpa using hd
      exact List.mem_of_mem_getLast? hc
    rw [hsame, List.getLast?_append, hc] at hlast
    obtain rfl : c = 'S' := by simpa using hlast
    exact absurd hletter (by decide)

end

/-! ### A column is no other constraint -/

/-- No column is a check: a longer word than the one that starts it is no such word. -/
theorem LinkedColumn.not_mem_reached_edged {column : LinkedColumn} (h : column.WellFormed)
    {word : String} (hletters : isLetters word = true)
    (hconstraint : constraintWords.contains word.toList = true)
    (hcapitals : word.toList.all Char.isUpper = true) {mid mid' : Place Slot}
    (hkeyword : mid ∈ (keyword word).reached (.start column.text)) :
    ¬ mid' ∈ (wordEdge : Pattern Slot).reached mid := by
  intro hedge
  obtain ⟨text, rest, hrest, hspells, rfl⟩ := mem_reached_keyword.mp hkeyword
  refine LinkedColumn.not_spells h hrest hspells hletters hconstraint hcapitals fun c hc => ?_
  have hatEdge := (mem_reached_wordEdge.mp hedge).1
  obtain ⟨front, d, rfl⟩ := (List.eq_nil_or_concat' text).resolve_left
    (spells_ne_nil hspells hletters)
  have hd := isWordChar_of_spells hspells hletters d (by simp)
  have hc : rest.head? = some c := hc
  by_contra hletter
  simp [Place.atWordEdge, Place.follows, Place.precedes, Place.past, hd, hc, hletter] at hatEdge

/-- The pattern for the words of an index. -/
abbrev indexWords : Pattern Slot :=
  oneOf [
    all [keyword "UNIQUE", opt (all [gap, oneOf [keyword "KEY", keyword "INDEX"]])],
    all [opt (oneOf [Grammar.leading ["FULLTEXT"], Grammar.leading ["SPATIAL"]]),
      oneOf [keyword "KEY", keyword "INDEX"]]]

/-- Of the words of an index a column can start with one at most, as the start of its name. -/
theorem LinkedColumn.exists_word_of_index {column : LinkedColumn} (h : column.WellFormed)
    {mid : Place Slot} (hmid : mid ∈ indexWords.reached (.start column.text)) :
    ∃ word rest, column.text = word ++ rest ∧ word ≠ [] ∧ (∀ c ∈ word, isWordChar c = true) ∧
      mid = (Place.start column.text).past word rest := by
  have hword : ∀ {word : String}, isLetters word = true →
      mid ∈ (keyword word).reached (.start column.text) →
      ∃ word rest, column.text = word ++ rest ∧ word ≠ [] ∧ (∀ c ∈ word, isWordChar c = true) ∧
        mid = (Place.start column.text).past word rest := by
    intro word hletters hkeyword
    obtain ⟨text, rest, hrest, hspells, rfl⟩ := mem_reached_keyword.mp hkeyword
    exact ⟨text, rest, hrest, spells_ne_nil hspells hletters,
      isWordChar_of_spells hspells hletters, rfl⟩
  simp only [indexWords, mem_reached_oneOf_cons, mem_reached_oneOf_nil, or_false] at hmid
  rcases hmid with hunique | hindex
  · obtain ⟨mid', hkeyword, hopt⟩ := mem_reached_all_cons.mp hunique
    rcases mem_reached_opt.mp hopt with hmore | rfl
    · obtain ⟨_, hgap, -⟩ := mem_reached_all_cons.mp hmore
      exact absurd hgap
        (LinkedColumn.not_mem_reached_gap h (by decide) (by decide) (by decide) hkeyword)
    · exact hword (by decide) hkeyword
  · obtain ⟨mid', hopt, hkeyword⟩ := mem_reached_all_cons.mp hindex
    rcases mem_reached_opt.mp hopt with hmore | rfl
    · rcases mem_reached_oneOf_cons.mp hmore with hfull | hspatial
      · exact absurd hfull
          (LinkedColumn.not_mem_reached_leading h (by decide) (by decide) (by decide) _)
      · exact absurd hspatial
          (LinkedColumn.not_mem_reached_leading h (by decide) (by decide) (by decide) _)
    · rcases mem_reached_oneOf_cons.mp hkeyword with hkey | hindex
      · exact hword (by decide) hkey
      · exact hword (by decide) hindex

/-- A digit behind the bracket of a list stops the pattern for an index. -/
theorem not_mem_reached_list {c : Char} {digits : Text} (h : place.rest = '(' :: c :: digits)
    (hc : isDecimalDigit c = true) (mid : Place Slot) :
    ¬ mid ∈ (all [lit '(', notAhead (all [spaces, one fun c => isDecimalDigit c || c == '\x27'])]
      : Pattern Slot).reached place := by
  intro hmid
  obtain ⟨_, hopening, hmid⟩ := mem_reached_all_cons.mp hmid
  obtain ⟨rest, hrest, rfl⟩ := mem_reached_lit.mp hopening
  obtain ⟨-, rfl⟩ := List.cons.inj (h.symm.trans hrest)
  have hnone := (mem_reached_notAhead.mp hmid).1
  have hspaces : place.past ['('] (c :: digits)
      ∈ (spaces : Pattern Slot).reached (place.past ['('] (c :: digits)) :=
    mem_reached_many.mpr
      ⟨[], c :: digits, rfl, List.forall_mem_nil _, (Place.past_nil rfl).symm⟩
  have hdigit : (place.past ['('] (c :: digits)).past [c] digits
      ∈ (all [one fun c => isDecimalDigit c || c == '\x27'] : Pattern Slot).reached
        (place.past ['('] (c :: digits)) :=
    mem_reached_one.mpr ⟨c, digits, rfl, by rw [hc]; rfl, rfl⟩
  have hmem := mem_reached_all_cons.mpr ⟨_, hspaces, hdigit⟩
  rw [hnone] at hmem
  exact List.not_mem_nil hmem

theorem IsIndexName.not_mem {text : Text} (h : IsIndexName text) : '(' ∉ text := by
  rcases h with rfl | ⟨name, blanks, -, hchars, hblanks, rfl⟩
  · exact List.not_mem_nil
  · rw [List.mem_append, not_or]
    exact ⟨not_mem_of_isNameChar hchars (by decide), not_mem_of_forall hblanks (by decide)⟩

theorem IsIndexMethod.not_mem {text : Text} (h : IsIndexMethod text) : '(' ∉ text := by
  rcases h with rfl | ⟨marker, gap, name, blanks, hspells, -, hgap, -, hname, hblanks, rfl⟩
  · exact List.not_mem_nil
  · simp only [List.mem_append, not_or]
    exact ⟨not_mem_of_forall (isWordChar_of_spells hspells (by decide)) (by decide),
      not_mem_of_forall hgap (by decide), not_mem_of_forall hname (by decide),
      not_mem_of_forall hblanks (by decide)⟩

/-- No column is an index. -/
theorem LinkedColumn.not_mem_reached_index {column : LinkedColumn} (h : column.WellFormed)
    (mid : Place Slot) : ¬ mid ∈ (all [indexWords, spaces,
      opt (all [Grammar.openQuote, Pattern.name, Grammar.closeQuote, spaces]), Grammar.indexMethod,
      lit '(', notAhead (all [spaces, one fun c => isDecimalDigit c || c == '\x27'])]).reached
        (.start column.text) := by
  intro hmid
  obtain ⟨_, hwords, hmid⟩ := mem_reached_all_cons.mp hmid
  obtain ⟨_, hspaces, hmid⟩ := mem_reached_all_cons.mp hmid
  obtain ⟨_, hname, hmid⟩ := mem_reached_all_cons.mp hmid
  obtain ⟨_, husing, hlist⟩ := mem_reached_all_cons.mp hmid
  obtain ⟨word, rest₁, hrest₁, -, hword, rfl⟩ := LinkedColumn.exists_word_of_index h hwords
  obtain ⟨blanks, rest₂, hrest₂, hblanks, rfl⟩ := mem_reached_many.mp hspaces
  obtain ⟨named, rest₃, hrest₃, hnamed, rfl⟩ := exists_indexName hname
  obtain ⟨method, rest₄, hrest₄, hmethod, rfl⟩ := exists_indexMethod husing
  obtain ⟨_, hopening, -⟩ := mem_reached_all_cons.mp hlist
  obtain ⟨rest, hrest, -⟩ := mem_reached_lit.mp hopening
  simp only [Place.rest_past] at hrest₂ hrest₃ hrest₄ hrest
  have htext : column.text = (word ++ (blanks ++ (named ++ method))) ++ '(' :: rest := by
    rw [hrest₁, hrest₂, hrest₃, hrest₄, hrest]
    simp
  have hnone : '(' ∉ word ++ (blanks ++ (named ++ method)) := by
    simp only [List.mem_append, not_or]
    exact ⟨not_mem_of_forall hword (by decide), not_mem_of_forall hblanks (by decide),
      hnamed.not_mem, hmethod.not_mem⟩
  rcases LinkedColumn.front_of_bracket h htext hnone with
    ⟨c, digits, rfl, hc⟩ | ⟨before, target, hfront, hspace, hlast, htarget, hsolid⟩
  · exact not_mem_reached_list hrest hc _ hlist
  · exact not_reference_of_index hword hblanks htarget hsolid hnamed hmethod hspace hlast
      hfront.symm

/-- A column is no other constraint. -/
theorem LinkedColumn.matchStart?_otherConstraint {column : LinkedColumn} (h : column.WellFormed) :
    Grammar.otherConstraint.matchStart? column.text = none := by
  refine LinkedColumn.matchStart?_eq_none h fun mid hmid => ?_
  rcases mem_reached_oneOf_cons.mp hmid with hcheck | hindex
  · obtain ⟨_, hkeyword, hedge⟩ := mem_reached_all_cons.mp hcheck
    rcases mem_reached_oneOf_cons.mp hkeyword with hkeyword | hkeyword
    · exact LinkedColumn.not_mem_reached_edged h (by decide) (by decide) (by decide) hkeyword hedge
    · exact LinkedColumn.not_mem_reached_edged h (by decide) (by decide) (by decide) hkeyword hedge
  · exact LinkedColumn.not_mem_reached_index h _ hindex

end Diagrams.Schema.Written
