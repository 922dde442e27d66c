/-
Searching a whole statement for keys.

A key is found where its two words stand with a bracket behind them, wherever that is in a
statement: the search knows nothing of parts, names or types.  What holds of every search for a word
holds of it (`KeySearch.beginsWith`).  Beyond that, between the words and the bracket there can only
be letters and blanks, so a stretch without a bracket that is closed by some other character holds
no key (`skips_of_closed`), and a word that is not followed by the second word of a key starts none.
-/
import Mathlib.Data.List.Infix
import Diagrams.Proofs.Pattern.Stretch
import Diagrams.Proofs.Schema.ColumnPart

namespace Diagrams.Schema

open Pattern

/-- The characters that may stand between the words of a key and its bracket. -/
def isRunning (c : Char) : Bool := isWordChar c || isBlank c

/-- The words of a statement and of its parts that are no name, no type and no word of a key. -/
def plainWords : List String := ["CREATE", "TABLE", "CONSTRAINT", "REFERENCES"]

/-- A text comes to a bracket, and what stands in front of the bracket is set off with a blank. -/
def Opens (text : Text) : Prop :=
  ∃ run rest, text = run ++ '(' :: rest ∧ (∀ c ∈ run, isRunning c = true) ∧
    (run = [] ∨ ∃ c ∈ run, isBlank c = true)

/-- A search for keys of one kind. -/
structure KeySearch where
  /-- The first of the two words. -/
  word : String
  /-- What is wanted behind the words. -/
  after : List (Pattern Slot)
  letters : isLetters word = true
  plain : ∀ other ∈ plainWords, ∀ text ∈ other.toList.tails, ¬ Spells word text
  opens : ∀ {place mid : Place Slot}, mid ∈ (all after).reached place → Opens place.rest

namespace KeySearch

/-- The pattern that is searched for. -/
def pattern (search : KeySearch) : Pattern Slot :=
  all (Grammar.phrase [search.word, "KEY"] :: search.after)

theorem beginsWith (search : KeySearch) : BeginsWith search.word search.pattern :=
  .phrase search.letters

end KeySearch

theorem isRunning_of_isWordChar {c : Char} (h : isWordChar c = true) : isRunning c = true := by
  simp [isRunning, h]

theorem isRunning_of_isBlank {c : Char} (h : isBlank c = true) : isRunning c = true := by
  simp [isRunning, h]

/-- A list in brackets opens with its bracket. -/
theorem exists_bracket_of_columnList {place mid : Place Slot}
    {ps : List (Pattern Slot)} {slot : Slot}
    (h : mid ∈ (all (Grammar.columnList slot :: ps)).reached place) :
    ∃ rest, place.rest = '(' :: rest := by
  obtain ⟨_, hlist, -⟩ := mem_reached_all_cons.mp h
  obtain ⟨_, hopening, -⟩ := mem_reached_all_cons.mp hlist
  obtain ⟨rest, hrest, -⟩ := mem_reached_lit.mp hopening
  exact ⟨rest, hrest⟩

namespace Opens

theorem of_bracket {blanks rest : Text} (hblank : ∀ c ∈ blanks, isBlank c = true) :
    Opens (blanks ++ '(' :: rest) := by
  refine ⟨blanks, rest, rfl, fun c hc => isRunning_of_isBlank (hblank c hc), ?_⟩
  cases blanks with
  | nil => exact .inl rfl
  | cons c blanks => exact .inr ⟨c, List.mem_cons_self, hblank c List.mem_cons_self⟩

/-- In front of a list of columns there are blanks, and a method may be named between them. -/
theorem of_primaryKey {place mid : Place Slot} {slot : Slot}
    (h : mid ∈ (all [spaces, Grammar.indexMethod, Grammar.columnList slot]).reached place) :
    Opens place.rest := by
  obtain ⟨_, hspaces, h⟩ := mem_reached_all_cons.mp h
  obtain ⟨blanks, rest, hrest, hblank, rfl⟩ := mem_reached_many.mp hspaces
  obtain ⟨_, hmethod, hlist⟩ := mem_reached_all_cons.mp h
  obtain ⟨method, behind, hbehind, hnamed, rfl⟩ := Written.exists_indexMethod hmethod
  obtain ⟨rest', hrest'⟩ := exists_bracket_of_columnList hlist
  simp only [Place.rest_past] at hbehind hrest'
  rw [hrest, hbehind, hrest']
  rcases hnamed with rfl | ⟨word, gap, name, blanks', hspells, hne, hgap, -, hname, hblanks', rfl⟩
  · exact of_bracket hblank
  · have hword := isWordChar_of_spells hspells (by decide)
    refine ⟨blanks ++ (word ++ (gap ++ (name ++ blanks'))), rest', by simp, ?_, .inr ?_⟩
    · intro c hc
      simp only [List.mem_append] at hc
      rcases hc with hc | hc | hc | hc | hc
      · exact isRunning_of_isBlank (hblank c hc)
      · exact isRunning_of_isWordChar (hword c hc)
      · exact isRunning_of_isBlank (hgap c hc)
      · exact isRunning_of_isWordChar (hname c hc)
      · exact isRunning_of_isBlank (hblanks' c hc)
    · obtain ⟨c, hc⟩ := List.exists_mem_of_ne_nil gap hne
      exact ⟨c, by simp [hc], hgap c hc⟩

/-- In front of a list of columns there are blanks. -/
theorem of_foreignKey {place mid : Place Slot} {slot : Slot} {ps : List (Pattern Slot)}
    (h : mid ∈ (all (spaces :: Grammar.columnList slot :: ps)).reached place) :
    Opens place.rest := by
  obtain ⟨_, hspaces, h⟩ := mem_reached_all_cons.mp h
  obtain ⟨blanks, rest, hrest, hblank, rfl⟩ := mem_reached_many.mp hspaces
  obtain ⟨rest', hrest'⟩ := exists_bracket_of_columnList h
  have hrest' : rest = '(' :: rest' := hrest'
  rw [hrest, hrest']
  exact of_bracket hblank

end Opens

/-- The search for primary keys. -/
def primaryKeySearch : KeySearch where
  word := "PRIMARY"
  after := [spaces, Grammar.indexMethod, Grammar.columnList .columns]
  letters := by decide
  plain := by decide
  opens := Opens.of_primaryKey

/-- The search for foreign keys. -/
def foreignKeySearch : KeySearch where
  word := "FOREIGN"
  after := [spaces, Grammar.columnList .columns, spaces, Grammar.references]
  letters := by decide
  plain := by decide
  opens := Opens.of_foreignKey

theorem pattern_primaryKeySearch : primaryKeySearch.pattern = Grammar.primaryKeyAnywhere := by
  unfold KeySearch.pattern Grammar.primaryKeyAnywhere
  dsimp only [primaryKeySearch]

theorem pattern_foreignKeySearch : foreignKeySearch.pattern = Grammar.foreignKeyAnywhere := by
  unfold KeySearch.pattern Grammar.foreignKeyAnywhere
  dsimp only [foreignKeySearch]

/-! ### Where a key starts -/

/-- A text that starts with a key, as a search sees it. -/
structure KeyAt (search : KeySearch) (text : Text) where
  first : Text
  blanks : Text
  second : Text
  behind : Text
  text_eq : text = first ++ (blanks ++ (second ++ behind))
  spells_first : Spells search.word first
  nonempty : blanks ≠ []
  blank : ∀ c ∈ blanks, isBlank c = true
  spells_second : Spells "KEY" second
  goes_on : ∃ here mid : Place Slot, here.rest = behind ∧ mid ∈ (all search.after).reached here

/-- A part of a text is closed when no letter, no blank and no bracket goes on behind it. -/
def Closes (rest : Text) : Prop := ∀ c ∈ rest.head?, isRunning c = false ∧ c ≠ '('

/-- The second word of a key is not the next word. -/
def NoKeyNext (rest : Text) : Prop :=
  ∀ blanks second behind, rest = blanks ++ (second ++ behind) → blanks ≠ [] →
    (∀ c ∈ blanks, isBlank c = true) → ¬ Spells "KEY" second

namespace KeyAt

variable {search : KeySearch} {text : Text}

theorem nonempty_of_mem_reached {place mid : Place Slot} (h : mid ∈ search.pattern.reached place) :
    Nonempty (KeyAt search place.rest) := by
  obtain ⟨_, hphrase, hafter⟩ := mem_reached_all_cons.mp h
  obtain ⟨_, hfirst, hphrase⟩ := mem_reached_all_cons.mp
    (show _ ∈ (all [keyword search.word, gap, keyword "KEY"]).reached place from hphrase)
  obtain ⟨_, hgap, hsecond⟩ := mem_reached_all_cons.mp hphrase
  obtain ⟨first, rest, hrest, hspells, rfl⟩ := mem_reached_keyword.mp hfirst
  obtain ⟨blanks, rest', hrest', hne, hblank, rfl⟩ := mem_reached_atLeastOne.mp hgap
  obtain ⟨second, behind, hbehind, hspells', rfl⟩ :=
    mem_reached_keyword.mp (show _ ∈ (keyword "KEY").reached _ from hsecond)
  simp only [Place.rest_past] at hrest' hbehind
  exact ⟨⟨first, blanks, second, behind, by rw [hrest, hrest', hbehind], hspells, hne, hblank,
    hspells', _, mid, rfl, hafter⟩⟩

/-- Up to the bracket of a key there are letters and blanks. -/
theorem exists_bracket (key : KeyAt search text) :
    ∃ run rest, text = run ++ '(' :: rest ∧ ∀ c ∈ run, isRunning c = true := by
  obtain ⟨here, mid, hhere, hmid⟩ := key.goes_on
  obtain ⟨run, rest, hrest, hrun, -⟩ := search.opens hmid
  have hfirst := isWordChar_of_spells key.spells_first search.letters
  have hsecond := isWordChar_of_spells key.spells_second (by decide)
  refine ⟨key.first ++ (key.blanks ++ (key.second ++ run)), rest, ?_, ?_⟩
  · refine key.text_eq.trans ?_
    rw [← hhere, hrest]
    simp
  · intro c hc
    simp only [List.mem_append] at hc
    rcases hc with hc | hc | hc | hc
    · exact isRunning_of_isWordChar (hfirst c hc)
    · exact isRunning_of_isBlank (key.blank c hc)
    · exact isRunning_of_isWordChar (hsecond c hc)
    · exact hrun c hc

/-- In a word, a key starts with the end of the word. -/
theorem eq_of_word {word rest : Text} (key : KeyAt search (word ++ rest))
    (hword : ∀ c ∈ word, isWordChar c = true) (hrest : ∀ c ∈ rest.head?, isWordChar c = false) :
    word = key.first ∧ rest = key.blanks ++ (key.second ++ key.behind) :=
  append_inj_of_stop hword (isWordChar_of_spells key.spells_first search.letters) hrest
    (Written.head?_blanks key.nonempty key.blank) key.text_eq

end KeyAt

namespace KeySearch

variable {search : KeySearch} {front rest : Text}

theorem skips_of_keyAt (h : ∀ near c far, front = near ++ c :: far →
    ¬ Nonempty (KeyAt search (c :: (far ++ rest)))) : search.pattern.Skips front rest := by
  intro near c far hsplit place hplace
  refine matchAt?_eq_none_iff.mpr fun mid hmid => h near c far hsplit ?_
  rw [← hplace]
  exact KeyAt.nonempty_of_mem_reached hmid

/-- No key starts where something else than a bracket comes first. -/
theorem skips_of_closed (hfront : '(' ∉ front) (hrest : Closes rest) :
    search.pattern.Skips front rest := by
  refine skips_of_keyAt fun near c far hsplit hkey => ?_
  obtain ⟨key⟩ := hkey
  obtain ⟨run, rest', hrun_eq, hrun⟩ := key.exists_bracket
  have heq : (c :: far) ++ rest = run ++ '(' :: rest' := hrun_eq
  rcases append_eq_append_cons heq with ⟨middle, hmiddle, -⟩ | ⟨middle, hmiddle, hbehind⟩
  · exact hfront (by rw [hsplit, hmiddle]; simp)
  · cases middle with
    | nil => exact (hrest '(' (by rw [hbehind]; rfl)).2 rfl
    | cons d middle =>
        have hd := hrun d (by rw [hmiddle]; simp)
        rw [(hrest d (by rw [hbehind]; rfl)).1] at hd
        exact Bool.noConfusion hd

/-- A word that is followed by another word than the second one of a key starts none. -/
theorem skips_word (hfront : ∀ c ∈ front, isWordChar c = true)
    (hrest : ∀ c ∈ rest.head?, isWordChar c = false) (hnext : NoKeyNext rest) :
    search.pattern.Skips front rest := by
  refine skips_of_keyAt fun near c far hsplit hkey => ?_
  obtain ⟨key⟩ := hkey
  have hword : ∀ d ∈ c :: far, isWordChar d = true :=
    fun d hd => hfront d (by rw [hsplit]; simp [hd])
  obtain ⟨-, hbehind⟩ := KeyAt.eq_of_word key hword hrest
  exact hnext _ _ _ hbehind key.nonempty key.blank key.spells_second

/-- In a word that ends with the first word of a key, no key starts further in front: its first word
would be longer. -/
theorem skips_before {first : Text} (hword : ∀ c ∈ front ++ first, isWordChar c = true)
    (hfirst : Spells search.word first) (hrest : ∀ c ∈ rest.head?, isWordChar c = false) :
    search.pattern.Skips front (first ++ rest) := by
  refine skips_of_keyAt fun near c far hsplit hkey => ?_
  obtain ⟨key⟩ := hkey
  have hlonger : ∀ d ∈ (c :: far) ++ first, isWordChar d = true := by
    intro d hd
    refine hword d ?_
    rw [hsplit, List.append_assoc]
    exact List.mem_append_right near hd
  rw [← List.cons_append, ← List.append_assoc] at key
  obtain ⟨hsame, -⟩ := key.eq_of_word hlonger hrest
  have hlength := key.spells_first.length_eq
  rw [← hsame, List.length_append, List.length_cons, hfirst.length_eq] at hlength
  omega

end KeySearch

/-! ### What comes next -/

theorem noKeyNext_of_not_blank (h : ∀ c ∈ rest.head?, isBlank c = false) : NoKeyNext rest := by
  intro blanks second behind heq hne hblank
  obtain ⟨c, blanks, rfl⟩ := List.exists_cons_of_ne_nil hne
  have hc := hblank c List.mem_cons_self
  rw [h c (by rw [heq]; rfl)] at hc
  exact absurd hc Bool.false_ne_true

/-- A space and then a character that the second word does not start with. -/
theorem noKeyNext_space {c : Char} {rest : Text} (hc : isBlank c = false)
    (hletter : matchesLetter 'K' c = false) : NoKeyNext (' ' :: c :: rest) := by
  intro blanks second behind heq hne hblank hspells
  have hkey : isLetters "KEY" = true := by decide
  obtain ⟨-, hbehind⟩ := append_inj_of_stop forall_blank_space hblank (forall_head?_cons hc rest)
    (fun d hd => isBlank_of_isWordChar (head?_spells hspells hkey d hd)) heq
  obtain ⟨d, second, rfl⟩ := List.exists_cons_of_ne_nil (spells_ne_nil hspells hkey)
  obtain ⟨rfl, -⟩ := List.cons.inj hbehind
  have hspelled : List.Forall₂ (fun letter c => matchesLetter letter c = true) ['K', 'E', 'Y']
      (c :: second) := hspells
  rw [(List.forall₂_cons.mp hspelled).1] at hletter
  exact Bool.noConfusion hletter

end Diagrams.Schema
