/-
The keys that a search finds in a listing.

Every written key is found where it is written, with the lists that it was written with.  The
search for foreign keys finds nothing else.  The search for primary keys can be led astray, by
a column whose name ends like the first word of a key and whose type is the second: then it
takes the lengths of the type for a list of columns (`finds_column`).  Such lengths are
numbers, and no column is called that.
-/
import Diagrams.Proofs.Schema.KeySearch
import Diagrams.Proofs.Schema.Listing

namespace Diagrams.Schema.Written

open Pattern

variable {search : KeySearch} {rest : Text}

/-! ### Stretches without a key -/

theorem head?_space (rest : Text) : ∀ c ∈ (' ' :: rest).head?, isWordChar c = false :=
  forall_head?_cons (by decide) rest

/-- No key starts at plain words. -/
theorem skips_spaced {words : List String} (h : ∀ word ∈ words, word ∈ plainWords) :
    search.pattern.Skips (spaced words) rest := by
  have hletters : ∀ word ∈ plainWords, isLetters word = true := by decide
  exact search.beginsWith.skips_spaced
    (List.all_eq_true.mpr fun word hword => hletters word (h word hword))
    fun word hword => search.plain word (h word hword)

/-- No key starts in a name that is quoted or that no second word follows. -/
theorem skips_name {written : Name} (h : isIdentifier written.name = true)
    (hrest : ∀ c ∈ rest.head?, isWordChar c = false)
    (hnext : written.quotes = .none → NoKeyNext rest) :
    search.pattern.Skips written.text rest := by
  have hspelled := Name.spelled h
  have hopening : ∀ c ∈ written.quotes.opening, isWordChar c = false :=
    fun c hc => isWordChar_of_isOpenQuote (hspelled.opening.forall c hc)
  have hclosing : ∀ c ∈ written.quotes.closing, isWordChar c = false :=
    fun c hc => isWordChar_of_isCloseQuote (hspelled.closing.forall c hc)
  have hbehind : (∀ c ∈ (written.quotes.closing ++ rest).head?, isWordChar c = false) ∧
      NoKeyNext (written.quotes.closing ++ rest) := by
    rcases hspelled.closing with hnone | ⟨quote, hquote, hone⟩
    · rw [hnone]
      refine ⟨hrest, hnext ?_⟩
      cases hquotes : written.quotes with
      | none => rfl
      | backticks | doubleQuotes | brackets => simp [hquotes, Quotes.closing] at hnone
    · rw [hone]
      exact ⟨forall_head?_cons (isWordChar_of_isCloseQuote hquote) rest,
        noKeyNext_of_not_blank (forall_head?_cons (isBlank_of_isCloseQuote hquote) rest)⟩
  have hword : search.pattern.Skips written.name (written.quotes.closing ++ rest) :=
    KeySearch.skips_word (isWordChar_of_isIdentifier h) hbehind.1 hbehind.2
  exact (search.beginsWith.skips_of_not_word hopening).append
    (hword.append (search.beginsWith.skips_of_not_word hclosing))

theorem closes_bracket (rest : Text) : Closes (')' :: rest) := by
  intro c hc
  obtain rfl : ')' = c := by simpa using hc
  decide

/-- No key starts in a list in brackets. -/
theorem skips_bracketed {inner : Text} (h : '(' ∉ inner) :
    search.pattern.Skips (bracketed inner) rest := by
  have hopening : search.pattern.Skips ['('] (inner ++ [')'] ++ rest) :=
    search.beginsWith.skips_of_not_word (List.forall_mem_singleton.mpr (by decide))
  have hinner : search.pattern.Skips inner ([')'] ++ rest) :=
    KeySearch.skips_of_closed h (closes_bracket rest)
  have hclosing : search.pattern.Skips [')'] rest :=
    search.beginsWith.skips_of_not_word (List.forall_mem_singleton.mpr (by decide))
  exact hopening.append (hinner.append hclosing)

/-- No key starts in front of the first word of one. -/
theorem skips_constraintText {constraint : Option Name} {c : Char}
    (h : ConstraintWellFormed constraint) (hc : isBlank c = false)
    (hletter : matchesLetter 'K' c = false) :
    search.pattern.Skips (constraintText constraint) (c :: rest) := by
  cases constraint with
  | none => exact .nil
  | some name =>
      have hname : search.pattern.Skips name.text ([' '] ++ c :: rest) :=
        skips_name (h name rfl) (head?_space _) fun _ => noKeyNext_space hc hletter
      exact (skips_spaced (by decide)).append (hname.append search.beginsWith.skips_space)

/-- No key starts at the words and the columns of a key of another kind. -/
theorem skips_otherKey {word : String} {columns : List Name} (hletters : isLetters word = true)
    (hword : ∀ text ∈ word.toList.tails, ¬ Spells search.word text) (h : NamesWellFormed columns) :
    search.pattern.Skips (spaced [word, "KEY"] ++ bracketed (nameList columns)) rest := by
  have hfirst : search.pattern.Skips word.toList
      ([' '] ++ ("KEY".toList ++ ([' '] ++ bracketed (nameList columns))) ++ rest) :=
    search.beginsWith.skips_of_tails (isWordChar_of_isLetters hletters) (head?_space _) hword
  have hsecond : search.pattern.Skips "KEY".toList
      ([' '] ++ bracketed (nameList columns) ++ rest) :=
    KeySearch.skips_word (isWordChar_of_isLetters (by decide)) (head?_space _)
      (noKeyNext_space (by decide) (by decide))
  have hlist : search.pattern.Skips ([' '] ++ bracketed (nameList columns)) rest :=
    search.beginsWith.skips_space.append
      (skips_bracketed (not_mem_nameList h (by decide) (by decide)))
  have hall := hfirst.append (search.beginsWith.skips_space.append (hsecond.append hlist))
  simpa only [spaced, List.append_assoc, List.cons_append, List.nil_append] using hall

/-- No key starts in what a foreign key refers to. -/
theorem skips_references {target : Name} {targetColumns : List Name}
    (htarget : isIdentifier target.name = true) (h : NamesWellFormed targetColumns) :
    search.pattern.Skips (' ' :: (spaced ["REFERENCES"] ++ (target.text ++
      bracketed (nameList targetColumns)))) rest := by
  have hname : search.pattern.Skips target.text (bracketed (nameList targetColumns) ++ rest) :=
    skips_name htarget (forall_head?_cons (by decide) _)
      fun _ => noKeyNext_of_not_blank (forall_head?_cons (by decide) _)
  have hlist : search.pattern.Skips (bracketed (nameList targetColumns)) rest :=
    skips_bracketed (not_mem_nameList h (by decide) (by decide))
  have hword : search.pattern.Skips (spaced ["REFERENCES"])
      (target.text ++ bracketed (nameList targetColumns) ++ rest) := skips_spaced (by decide)
  have hall : search.pattern.Skips ([' '] ++ (spaced ["REFERENCES"] ++ (target.text ++
      bracketed (nameList targetColumns)))) rest :=
    search.beginsWith.skips_space.append (hword.append (hname.append hlist))
  exact hall

/-! ### Columns -/

theorem skips_marks (marks : List Mark) (hrest : Closes rest) :
    search.pattern.Skips (marks.flatMap Mark.text) rest :=
  KeySearch.skips_of_closed (Mark.not_mem marks (by decide) (by decide)) hrest

theorem Column.text_of_lengths {column : Column} (h : column.type.lengths ≠ []) :
    column.text = column.name.text ++ ' ' :: (column.type.word ++
      (bracketed (Text.joined [','] column.type.lengths) ++ column.marks.flatMap Mark.text)) := by
  simp [Column.text, DataType.text, h]

/-- Where a key starts in a name with a type behind it, the type is the second word of the key. -/
theorem eq_of_keyAt {name word after : Text}
    (key : KeyAt search (name ++ ' ' :: (word ++ '(' :: after)))
    (hname : ∀ c ∈ name, isWordChar c = true) (hne : word ≠ [])
    (hword : ∀ c ∈ word, isWordChar c = true) :
    name = key.first ∧ word = key.second ∧ key.behind = '(' :: after := by
  obtain ⟨hfirst, hbehind⟩ := key.eq_of_word hname (head?_space _)
  have hstart : ∀ c ∈ (word ++ '(' :: after).head?, isBlank c = false :=
    forall_head?_append hne (fun c hc => isBlank_of_isWordChar (hword c hc)) _
  have hkey : isLetters "KEY" = true := by decide
  obtain ⟨-, hbehind⟩ := append_inj_of_stop forall_blank_space key.blank hstart
    (fun c hc => isBlank_of_isWordChar (head?_spells key.spells_second hkey c hc)) hbehind
  obtain ⟨here, mid, hhere, hmid⟩ := key.goes_on
  obtain ⟨run, rest', hrest', hrun, hblank⟩ := search.opens hmid
  rw [hhere] at hrest'
  rw [hrest', ← List.append_assoc] at hbehind
  have hsecond := isWordChar_of_spells key.spells_second hkey
  have hstop : ∀ rest : Text, ∀ c ∈ ('(' :: rest).head?, isRunning c = false :=
    fun rest => forall_head?_cons (by decide) rest
  have hfar : ∀ c ∈ key.second ++ run, isRunning c = true := by
    intro c hc
    rcases List.mem_append.mp hc with hc | hc
    · exact isRunning_of_isWordChar (hsecond c hc)
    · exact hrun c hc
  obtain ⟨hsame, hlist⟩ := append_inj_of_stop (fun c hc => isRunning_of_isWordChar (hword c hc))
    hfar (hstop after) (hstop rest') hbehind
  -- A run with a blank in it would be a part of the type.
  have hnone : run = [] := by
    rcases hblank with hnone | ⟨c, hc, hblank⟩
    · exact hnone
    · have hletter := hword c (by rw [hsame]; simp [hc])
      rw [isWordChar_of_isBlank hblank] at hletter
      exact Bool.noConfusion hletter
  rw [hnone, List.append_nil] at hsame
  rw [hnone, List.nil_append] at hrest'
  exact ⟨hfirst, hsame, hrest'.trans hlist.symm⟩

/-- No key starts in a column, unless one starts at the end of its name. -/
theorem skips_column {column : Column} (h : column.WellFormed) (hrest : Closes rest)
    (hnone : column.name.quotes = .none → column.type.lengths ≠ [] →
      ∀ near first, column.name.name = near ++ first →
        ¬ Nonempty (KeyAt search (first ++ ' ' :: (column.type.word ++
          '(' :: (Text.joined [','] column.type.lengths ++
            ')' :: (column.marks.flatMap Mark.text ++ rest)))))) :
    search.pattern.Skips column.text rest := by
  by_cases hlengths : column.type.lengths = []
  · refine KeySearch.skips_of_closed ?_ hrest
    have hname : '(' ∉ column.name.text :=
      not_mem_of_isNameChar (Name.isNameChar h.name) (by decide)
    have hword : '(' ∉ column.type.word :=
      not_mem_of_forall (isWordChar_of_isIdentifier h.type.word) (by decide)
    have hmarks : '(' ∉ column.marks.flatMap Mark.text :=
      Mark.not_mem column.marks (by decide) (by decide)
    simp [Column.text, DataType.text, hlengths, hname, hword, hmarks]
  · have hword := isWordChar_of_isIdentifier h.type.word
    have hbracket : ∀ (test : Char → Bool) (text : Text), test '(' = false →
        ∀ c ∈ (bracketed (Text.joined [','] column.type.lengths) ++ text).head?, test c = false :=
      fun test text htest => forall_head?_cons htest _
    have htype : search.pattern.Skips column.type.word
        (bracketed (Text.joined [','] column.type.lengths) ++
          column.marks.flatMap Mark.text ++ rest) := by
      rw [List.append_assoc]
      exact KeySearch.skips_word hword (hbracket isWordChar _ (by decide))
        (noKeyNext_of_not_blank (hbracket isBlank _ (by decide)))
    have hlist : search.pattern.Skips (bracketed (Text.joined [','] column.type.lengths))
        (column.marks.flatMap Mark.text ++ rest) :=
      skips_bracketed (DataType.not_mem_lengths h.type (by decide) (by decide))
    have hlater := search.beginsWith.skips_space.append
      (htype.append (hlist.append (skips_marks column.marks hrest)))
    rw [Column.text_of_lengths hlengths]
    refine Skips.append ?_ hlater
    cases hquotes : column.name.quotes with
    | backticks | doubleQuotes | brackets =>
        refine skips_name h.name (head?_space _) fun hbare => ?_
        rw [hquotes] at hbare
        exact Quotes.noConfusion hbare
    | none =>
        have htext : column.name.text = column.name.name := by
          simp [Name.text, hquotes, Quotes.opening, Quotes.closing]
        rw [htext]
        refine KeySearch.skips_of_keyAt fun near c far hsplit hkey => ?_
        refine hnone hquotes hlengths near (c :: far) hsplit ?_
        simpa [bracketed] using hkey

/-- Behind a column, no table is referred to. -/
theorem not_mem_reached_references {place : Place Slot} {marks : List Mark}
    (h : place.rest = marks.flatMap Mark.text ++ rest) (hrest : Closes rest) (mid : Place Slot) :
    ¬ mid ∈ (all [spaces, Grammar.references]).reached place := by
  intro hmid
  obtain ⟨_, hspaces, hreferences⟩ := mem_reached_all_cons.mp hmid
  obtain ⟨blanks, rest₁, hrest₁, hblank, rfl⟩ := mem_reached_many.mp hspaces
  obtain ⟨_, hleading, -⟩ := mem_reached_all_cons.mp
    (show mid ∈ Grammar.references.reached _ from hreferences)
  obtain ⟨_, rest₂, hrest₂, hphrase, -⟩ := mem_reached_leading.mp hleading
  obtain ⟨text, gap, hspells, -, -, rfl⟩ := phrase_singleton_iff.mp hphrase
  rw [Place.rest_past, List.append_assoc] at hrest₂
  have hletters : isLetters "REFERENCES" = true := by decide
  have hword : ∀ c ∈ (text ++ (gap ++ rest₂)).head?, isWordChar c = true :=
    head?_spells hspells hletters
  rw [h, hrest₂] at hrest₁
  cases marks with
  | nil =>
      have hrunning : ∃ c ∈ rest.head?, isRunning c = true := by
        rw [show rest = blanks ++ (text ++ (gap ++ rest₂)) from hrest₁]
        cases blanks with
        | nil =>
            obtain ⟨c, text, rfl⟩ := List.exists_cons_of_ne_nil (spells_ne_nil hspells hletters)
            exact ⟨c, rfl, isRunning_of_isWordChar (hword c rfl)⟩
        | cons c blanks => exact ⟨c, rfl, isRunning_of_isBlank (hblank c List.mem_cons_self)⟩
      obtain ⟨c, hc, hrunning⟩ := hrunning
      rw [(hrest c hc).1] at hrunning
      exact Bool.noConfusion hrunning
  | cons mark marks =>
      obtain ⟨hfirst, -⟩ := mark.isLetters_words
      have hsplit : [' '] ++ (mark.words.1.toList ++ (' ' :: (mark.words.2.toList ++
          (marks.flatMap Mark.text ++ rest)))) = blanks ++ (text ++ (gap ++ rest₂)) := by
        rw [← hrest₁]
        simp [Mark.text]
      obtain ⟨-, hsplit⟩ := append_inj_of_stop forall_blank_space hblank
        (head?_letters hfirst _) (fun c hc => isBlank_of_isWordChar (hword c hc)) hsplit
      have hagree := agree_of_spells (Bool.and_eq_true_iff.mp hfirst).2
        (Bool.and_eq_true_iff.mp hletters).2 (spells_self mark.words.1) hspells hsplit
      have hdiffer : agree mark.words.1 "REFERENCES" = false := by cases mark <;> decide
      rw [hdiffer] at hagree
      exact Bool.noConfusion hagree

/-- A list in brackets ends at the first bracket that closes. -/
theorem rest_of_mem_reached_columnList {slot : Slot} {place mid : Place Slot} {inner rest : Text}
    (h : place.rest = '(' :: (inner ++ ')' :: rest)) (hinner : ∀ c ∈ inner, (c != ')') = true)
    (hmid : mid ∈ (Grammar.columnList slot).reached place) : mid.rest = rest := by
  obtain ⟨_, hopening, hmid⟩ := mem_reached_all_cons.mp hmid
  obtain ⟨rest₁, hrest₁, rfl⟩ := mem_reached_lit.mp hopening
  obtain ⟨_, hnoted, hclosing⟩ := mem_reached_all_cons.mp hmid
  obtain ⟨_, hcovered, rfl⟩ := mem_reached_noted.mp hnoted
  obtain ⟨covered, rest₂, hrest₂, -, hstop, rfl⟩ := mem_reached_atLeastOne.mp hcovered
  obtain ⟨rest₃, hrest₃, rfl⟩ := mem_reached_lit.mp (show mid ∈ (lit ')').reached _ from hclosing)
  obtain ⟨-, hsame⟩ := List.cons.inj (hrest₁.symm.trans h)
  have hrest₂ : rest₁ = covered ++ rest₂ := hrest₂
  have hrest₃ : rest₂ = ')' :: rest₃ := hrest₃
  rw [hsame, hrest₃] at hrest₂
  obtain ⟨-, hrest⟩ := append_inj_of_stop hinner hstop
    (forall_head?_cons (by decide) rest) (forall_head?_cons (by decide) rest₃) hrest₂
  exact (List.cons.inj hrest).2.symm

/-- No foreign key starts in a column. -/
theorem skips_column_foreign {column : Column} (h : column.WellFormed) (hrest : Closes rest) :
    foreignKeySearch.pattern.Skips column.text rest := by
  refine skips_column h hrest fun _ _ near first hsplit hkey => ?_
  obtain ⟨key⟩ := hkey
  have hname : ∀ c ∈ first, isWordChar c = true :=
    fun c hc => isWordChar_of_isIdentifier h.name c (by rw [hsplit]; simp [hc])
  obtain ⟨-, -, hbehind⟩ := eq_of_keyAt key hname (ne_nil_of_isIdentifier h.type.word)
    (isWordChar_of_isIdentifier h.type.word)
  obtain ⟨here, mid, hhere, hmid⟩ := key.goes_on
  rw [hbehind] at hhere
  obtain ⟨_, hspaces, hlists⟩ := mem_reached_all_cons.mp hmid
  have hstay : (spaces : Pattern Slot).reached here = [here] :=
    Place.reach_of_stop (by rw [hhere]; exact forall_head?_cons (by decide) _) .greedy
  rw [hstay, List.mem_singleton] at hspaces
  subst hspaces
  obtain ⟨_, hlist, hreferences⟩ := mem_reached_all_cons.mp hlists
  have hlengths : ∀ c ∈ Text.joined [','] column.type.lengths, (c != ')') = true := by
    intro c hc
    rw [bne_iff_ne]
    rintro rfl
    exact DataType.not_mem_lengths h.type (by decide) (by decide) hc
  have hmarks := rest_of_mem_reached_columnList hhere hlengths hlist
  exact not_mem_reached_references hmarks hrest mid hreferences

/-! ### Keys that are found -/

/-- The columns that a primary key was found with. -/
def foundColumns (found : Match Slot) : Text := found.text .columns

/-- What a foreign key was found with: its columns, the table that it refers to, and columns
there. -/
def foundReference (found : Match Slot) : Text × Text × Option Text :=
  (found.text .columns, found.text .target, found.text? .targetColumns)

/-- Two words and a list are a primary key, whatever the list holds. -/
theorem finds_primaryKey {first second blanks inner : Text} (hfirst : Spells "PRIMARY" first)
    (hsecond : Spells "KEY" second) (hblank : ∀ c ∈ blanks, isBlank c = true) (hne : inner ≠ [])
    (hinner : ∀ c ∈ inner, c ≠ ')') :
    primaryKeySearch.pattern.Finds foundColumns
      (first ++ ' ' :: (second ++ (blanks ++ bracketed inner))) rest [inner] := by
  refine Finds.of_run (by simp) fun place hplace => ?_
  rw [pattern_primaryKeySearch]
  have hrun : Grammar.primaryKeyAnywhere.run place some = some _ :=
    run_primaryKeyAnywhere hfirst hsecond hblank hne hinner hplace rfl
  exact ⟨_, hrun, rfl, by simp [foundColumns, Match.text]⟩

/-- A written foreign key is found with its lists. -/
theorem finds_foreignKey {columns targetColumns : List Name} {target : Name}
    (h : (Key.foreign columns target targetColumns).WellFormed) :
    foreignKeySearch.pattern.Finds foundReference (Key.foreign columns target targetColumns).text
      rest [(nameList columns, target.name, some (nameList targetColumns))] := by
  refine Finds.of_run (Key.solid _).ne_nil fun place hplace => ?_
  rw [pattern_foreignKeySearch]
  have hrun : Grammar.foreignKeyAnywhere.run place some = some _ :=
    run_foreignKeyAnywhere h hplace rfl
  exact ⟨_, hrun, rfl, by simp [foundReference, Match.text]⟩

/-- The only list that a primary key is found with in a column is that of the lengths of its
type. -/
theorem finds_column {column : Column} (h : column.WellFormed) (hrest : Closes rest) :
    ∃ lists, primaryKeySearch.pattern.Finds foundColumns column.text rest lists ∧
      ∀ list ∈ lists, list = Text.joined [','] column.type.lengths := by
  let lengths := Text.joined [','] column.type.lengths
  let marks := column.marks.flatMap Mark.text
  by_cases hkey : column.name.quotes = .none ∧ column.type.lengths ≠ [] ∧
      ∃ near first, column.name.name = near ++ first ∧ Nonempty (KeyAt primaryKeySearch
        (first ++ ' ' :: (column.type.word ++ '(' :: (lengths ++ ')' :: (marks ++ rest)))))
  · obtain ⟨hquotes, hlengths, near, first, hname, ⟨key⟩⟩ := hkey
    have hletters : ∀ c ∈ near ++ first, isWordChar c = true := by
      rw [← hname]
      exact isWordChar_of_isIdentifier h.name
    have hfirst : ∀ c ∈ first, isWordChar c = true := fun c hc => hletters c (by simp [hc])
    obtain ⟨hsame, hword, -⟩ := eq_of_keyAt key hfirst (ne_nil_of_isIdentifier h.type.word)
      (isWordChar_of_isIdentifier h.type.word)
    have hspells : Spells "PRIMARY" first := hsame ▸ key.spells_first
    have hspells' : Spells "KEY" column.type.word := hword ▸ key.spells_second
    have htext : column.text = near ++ ((first ++ ' ' :: (column.type.word ++
        ([] ++ bracketed lengths))) ++ marks) := by
      rw [Column.text_of_lengths hlengths, Name.text, hquotes, hname]
      simp [Quotes.opening, Quotes.closing, lengths, marks]
    have hlist : primaryKeySearch.pattern.Finds foundColumns (first ++ ' ' :: (column.type.word ++
        ([] ++ bracketed lengths))) (marks ++ rest) [lengths] := by
      refine finds_primaryKey hspells hspells' (List.forall_mem_nil _) ?_ fun c hc => ?_
      · obtain ⟨c, digits, hdigits, -⟩ := DataType.head?_lengths h.type hlengths
        simp [lengths, hdigits]
      · rintro rfl
        exact DataType.not_mem_lengths h.type (by decide) (by decide) hc
    have hnear : primaryKeySearch.pattern.Skips near ((first ++ ' ' :: (column.type.word ++
        ([] ++ bracketed lengths))) ++ marks ++ rest) := by
      rw [List.append_assoc, List.append_assoc]
      exact KeySearch.skips_before hletters hspells (head?_space _)
    have hall : primaryKeySearch.pattern.Finds foundColumns _ rest ([] ++ ([lengths] ++ [])) :=
      hnear.finds.append (hlist.append (skips_marks column.marks hrest).finds)
    rw [htext]
    exact ⟨[lengths], hall, fun list hmem => List.mem_singleton.mp hmem⟩
  · refine ⟨[], (skips_column h hrest fun hquotes hlengths near first hname hmem => ?_).finds, ?_⟩
    · exact hkey ⟨hquotes, hlengths, near, first, hname, hmem⟩
    · exact List.forall_mem_nil _

/-! ### Parts, lists and listings -/

/-- What a written key is found with by the search for foreign keys. -/
def Key.foreignTexts : Key → List (Text × Text × Option Text)
  | primary _ => []
  | foreign columns target targetColumns =>
    [(nameList columns, target.name, some (nameList targetColumns))]

/-- The lists of columns that a written key is found with by the search for primary keys. -/
def Key.primaryLists : Key → List Text
  | primary columns => [nameList columns]
  | foreign _ _ _ => []

/-- The names in the lists of a primary key. -/
theorem Key.flatMap_primaryLists {key : Key} (h : key.WellFormed) :
    key.primaryLists.flatMap identifierList = key.primaryColumns.map Name.name := by
  cases key with
  | primary columns => simp [primaryLists, primaryColumns, identifierList_nameList h]
  | foreign columns target targetColumns => rfl

/-- The foreign keys of what a written key is found with. -/
theorem Key.flatMap_foreignTexts {key : Key} (h : key.WellFormed) (table : Text) :
    (key.foreignTexts.flatMap fun texts => foreignKeys table texts.1 texts.2.1 texts.2.2)
      = key.references table := by
  cases key with
  | primary columns => rfl
  | foreign columns target targetColumns =>
      have hkeys : foreignKeys table (nameList columns) target.name (some (nameList targetColumns))
          = (Key.foreign columns target targetColumns).references table := foreignKeys_nameList h
      simpa [foreignTexts] using hkeys

theorem finds_key_primary {key : Key} (h : key.WellFormed) :
    primaryKeySearch.pattern.Finds foundColumns key.text rest key.primaryLists := by
  cases key with
  | primary columns =>
      have hfound : primaryKeySearch.pattern.Finds foundColumns _ rest [nameList columns] :=
        finds_primaryKey (spells_self "PRIMARY") (spells_self "KEY") forall_blank_space
          (nameList_ne_nil h) (ne_bracket_of_nameList h)
      rw [Key.text_primary]
      exact hfound
  | foreign columns target targetColumns =>
      obtain ⟨hcolumns, htarget, htargetColumns⟩ := h
      have hwords : primaryKeySearch.pattern.Skips
          (spaced ["FOREIGN", "KEY"] ++ bracketed (nameList columns))
          (' ' :: (spaced ["REFERENCES"] ++ (target.text ++ bracketed (nameList targetColumns))) ++
            rest) := skips_otherKey (by decide) (by decide) hcolumns
      have hall := hwords.append (skips_references htarget htargetColumns)
      refine Skips.finds ?_
      simpa [Key.text] using hall

theorem finds_key_foreign {key : Key} (h : key.WellFormed) :
    foreignKeySearch.pattern.Finds foundReference key.text rest key.foreignTexts := by
  cases key with
  | primary columns => exact (skips_otherKey (by decide) (by decide) h).finds
  | foreign columns target targetColumns => exact finds_foreignKey h

theorem skips_constraint_key {constraint : Option Name} {key : Key}
    (h : ConstraintWellFormed constraint) :
    search.pattern.Skips (constraintText constraint) (key.text ++ rest) := by
  cases key with
  | primary columns =>
      rw [Key.text_primary]
      exact skips_constraintText h (by decide) (by decide)
  | foreign columns target targetColumns =>
      rw [Key.text_foreign]
      exact skips_constraintText h (by decide) (by decide)

theorem isWordChar_pair {c d : Char} (hc : isWordChar c = false) (hd : isWordChar d = false) :
    ∀ e ∈ [c, d], isWordChar e = false :=
  List.forall_mem_cons.mpr ⟨hc, List.forall_mem_singleton.mpr hd⟩

/-- Found in every part of a list, found in the list. -/
theorem finds_list {α : Type} {read : Match Slot → α} {Reads : Item → List α → Prop}
    {items : List Item} (h : ∀ item ∈ items, ∀ rest, Closes rest →
      ∃ values, search.pattern.Finds read item.text rest values ∧ Reads item values)
    {ending : Text} (hending : Closes ending) :
    ∃ values : List (List α), search.pattern.Finds read
        (Text.joined partSeparator (items.map Item.text)) ending values.flatten ∧
      List.Forall₂ Reads items values := by
  induction items with
  | nil => exact ⟨[], Skips.nil.finds, .nil⟩
  | cons item items ih =>
      obtain ⟨hitem, hitems⟩ := List.forall_mem_cons.mp h
      obtain ⟨others, hothers, hreads⟩ := ih hitems
      cases items with
      | nil =>
          obtain ⟨values, hvalues, hread⟩ := hitem ending hending
          refine ⟨[values], ?_, .cons hread .nil⟩
          simpa using hvalues
      | cons next items =>
          have hcloses : ∀ rest : Text, Closes (partSeparator ++ rest) := by
            intro rest c hc
            obtain rfl : ',' = c := by simpa using hc
            decide
          obtain ⟨values, hvalues, hread⟩ := hitem (partSeparator ++
            (Text.joined partSeparator ((next :: items).map Item.text) ++ ending)) (hcloses _)
          have hseparator : search.pattern.Skips partSeparator
              (Text.joined partSeparator ((next :: items).map Item.text) ++ ending) :=
            search.beginsWith.skips_of_not_word (isWordChar_pair (by decide) (by decide))
          refine ⟨values :: others, ?_, .cons hread hreads⟩
          rw [← List.append_assoc] at hvalues
          rw [List.map_cons, List.map_cons, Text.joined_cons_cons]
          exact hvalues.append (hseparator.finds.append hothers)

/-- Found in the list of a listing, found in the listing. -/
theorem finds_written {α : Type} {read : Match Slot → α} {listing : Listing} {ending : Text}
    {values : List α} (h : listing.WellFormed) (hending : ∀ c ∈ ending, isWordChar c = false)
    (hlist : search.pattern.Finds read listing.list ending values) :
    (search.pattern.findAll (listing.written ending)).map read = values := by
  have hname : search.pattern.Skips listing.name.text ([' ', '('] ++ (listing.list ++ ending)) :=
    skips_name h.name (head?_space _) fun _ => noKeyNext_space (by decide) (by decide)
  have hopening : search.pattern.Skips [' ', '('] (listing.list ++ ending) :=
    search.beginsWith.skips_of_not_word (isWordChar_pair (by decide) (by decide))
  have hend : search.pattern.Skips ending [] := search.beginsWith.skips_of_not_word hending
  have hhead : search.pattern.Skips (spaced ["CREATE", "TABLE"])
      ((listing.name.text ++ [' ', '(']) ++ (listing.list ++ ending)) := skips_spaced (by decide)
  have hbehind : search.pattern.Finds read (listing.list ++ ending) [] (values ++ []) := by
    rw [← List.append_nil ending] at hlist
    exact hlist.append hend.finds
  have hfront : search.pattern.Finds read
      (spaced ["CREATE", "TABLE"] ++ (listing.name.text ++ [' ', '(']))
        (listing.list ++ ending ++ []) [] := by
    rw [List.append_nil]
    exact (hhead.append (hname.append hopening)).finds
  refine Finds.map_findAll ?_
  simpa [Listing.written] using hfront.append hbehind

end Diagrams.Schema.Written
