/-
The permissive reading of what the strict reading accepts.

The two readings of a table definition use patterns of their own for everything: the start of
the statement, the constraints, the columns.  Where the strict reading succeeds they agree all
the same.  A part that it takes for a key starts with a word that the permissive reading
passes over, and a part that it takes for a column starts with a written name, a gap and a
letter, which is all that the permissive pattern needs.  `salvageTable_of_readTable` puts this
together over the parts of a table.
-/
import Diagrams.Proofs.Schema.Draft
import Diagrams.Proofs.Schema.Header

namespace Diagrams.Schema

open Pattern

/-! ### Parts that start with a word -/

/-- Words that start a constraint are made of word characters. -/
theorem isWordChar_of_isConstraintWord {word : Text} (h : isConstraintWord word = true) :
    ∀ c ∈ word, isWordChar c = true := by
  have hcapitals : ∀ capitals ∈ constraintWords, capitals.all Char.isUpper = true := by decide
  exact isWordChar_of_isUpper_capitals (hcapitals _ (List.contains_iff_mem.mp h))

theorem head?_words_of_spells {word : String} {part front text blanks rest : Text}
    (h : part = front ++ (text ++ (blanks ++ rest))) (hfront : ∀ c ∈ front, isBlank c = true)
    (hspells : Spells word text) (hword : isLetters word = true) (hne : blanks ≠ [])
    (hblank : ∀ c ∈ blanks, isBlank c = true) : part.words.head? = some text := by
  obtain ⟨c, blanks, rfl⟩ := List.exists_cons_of_ne_nil hne
  rw [h]
  exact Text.head?_words hfront (spells_ne_nil hspells hword)
    (fun d hd => isBlank_of_isWordChar (isWordChar_of_spells hspells hword d hd))
    (hblank c List.mem_cons_self)

/-- The first word of a part that is a phrase, or that names a constraint in front of it. -/
theorem exists_firstWord {word next : String} {words : List String} {ps : List (Pattern Slot)}
    {part : Text} {found : Match Slot} (hword : isLetters word = true)
    (h : (all (Grammar.constraintName :: Grammar.phrase (word :: next :: words) :: ps)).matchStart?
      part = some found) :
    ∃ text, part.words.head? = some text ∧ (Spells "CONSTRAINT" text ∨ Spells word text) := by
  obtain ⟨-, hlast⟩ := mem_reached_of_matchStart? h
  rw [mem_reached_all_cons] at hlast
  obtain ⟨mid, hname, hlast⟩ := hlast
  obtain ⟨_, hphrase, -⟩ := mem_reached_all_cons.mp hlast
  unfold Grammar.constraintName at hname
  simp only [mem_reached_all_cons, mem_reached_all_nil, mem_reached_opt] at hname
  obtain ⟨_, hspaces, _, hconstraint, rfl⟩ := hname
  obtain ⟨front, rest, hrest, hfront, rfl⟩ := mem_reached_many.mp hspaces
  rw [Place.rest_start] at hrest
  rcases hconstraint with ⟨_, hleading, -⟩ | rfl
  · obtain ⟨_, rest', hrest', hconstraint, -⟩ := mem_reached_leading.mp hleading
    obtain ⟨text, blanks, hspells, hne, hblank, rfl⟩ := phrase_singleton_iff.mp hconstraint
    rw [Place.rest_past, List.append_assoc] at hrest'
    exact ⟨text, head?_words_of_spells (by rw [hrest, hrest']) hfront hspells
      (by decide) hne hblank, .inl hspells⟩
  · have hparts : ∃ ps, Grammar.phrase (word :: next :: words)
        = all (keyword word :: gap :: ps) := ⟨_, rfl⟩
    obtain ⟨ps, hps⟩ := hparts
    rw [hps, mem_reached_all_cons] at hphrase
    obtain ⟨_, hkeyword, hphrase⟩ := hphrase
    obtain ⟨_, hgap, -⟩ := mem_reached_all_cons.mp hphrase
    obtain ⟨text, rest', hrest', hspells, rfl⟩ := mem_reached_keyword.mp hkeyword
    obtain ⟨blanks, rest'', hrest'', hne, hblank, -⟩ := mem_reached_atLeastOne.mp hgap
    simp only [Place.rest_past] at hrest' hrest''
    exact ⟨text, head?_words_of_spells (by rw [hrest, hrest', hrest'']) hfront hspells hword hne
      hblank, .inr hspells⟩

/-- Without the capital i with a dot, what spells a constraint word is one. -/
theorem isConstraintWord_of_spells {word : String} {text : Text} (h : Spells word text)
    (hword : constraintWords.contains word.toList = true)
    (hletters : word.toList.all
      (fun letter => letter.isUpper && (letter.isAlpha && letter.toLower != 'k')) = true)
    (hdot : '\u0130' ∉ text) : isConstraintWord text = true := by
  rw [List.all_eq_true] at hletters
  have hupper : word.toList.all Char.isUpper = true :=
    List.all_eq_true.mpr fun c hc => (Bool.and_eq_true_iff.mp (hletters c hc)).1
  have hkelvin : '\u212a' ∉ text :=
    h.not_mem_kelvin (List.all_eq_true.mpr fun c hc => (Bool.and_eq_true_iff.mp (hletters c hc)).2)
  unfold isConstraintWord
  rw [h.capitals hupper hdot hkelvin]
  exact hword

/-- A part that is taken for a key starts with a word that the permissive reading passes over. -/
theorem isConstraintWord_of_key {word : String} {ps : List (Pattern Slot)} {part : Text}
    {found : Match Slot} (hword : constraintWords.contains word.toList = true)
    (hletters : word.toList.all
      (fun letter => letter.isUpper && (letter.isAlpha && letter.toLower != 'k')) = true)
    (hne : isLetters word = true) (hdot : '\u0130' ∉ part)
    (h : (all (Grammar.constraintName :: Grammar.phrase [word, "KEY"] :: ps)).matchStart? part
      = some found) :
    isConstraintWord (part.words.head?.getD []) = true := by
  obtain ⟨text, hfirst, hspells⟩ := exists_firstWord hne h
  have hdot' : '\u0130' ∉ text := fun hmem =>
    hdot (Text.mem_of_mem_words (List.mem_of_mem_head? hfirst) hmem)
  rw [hfirst, Option.getD_some]
  rcases hspells with hspells | hspells
  · exact isConstraintWord_of_spells hspells (by decide) (by decide) hdot'
  · exact isConstraintWord_of_spells hspells hword hletters hdot'

/-! ### Parts that are columns -/

/-- The patterns for columns: a written name, a gap, and a type that starts with a letter. -/
abbrev columnLike (ps qs : List (Pattern Slot)) : Pattern Slot :=
  all (Grammar.identifier .name :: gap ::
    noted .type (all (one (fun c => isLatinLetter c || c == '_') :: ps)) :: qs)

/-- How a column is written up to the first letter of its type. -/
structure ColumnStart (part name : Text) where
  opening : Text
  qualifier : Text
  closing : Text
  blanks : Text
  letter : Char
  rest : Text
  spelled : Spelled opening qualifier name closing
  nonempty : blanks ≠ []
  blank : ∀ c ∈ blanks, isBlank c = true
  isLetter : (isLatinLetter letter || letter == '_') = true
  text : part = opening ++ (qualifier ++ (name ++ closing)) ++ (blanks ++ letter :: rest)

/-- The name that a pattern for columns notes is written at the start of the part. -/
theorem exists_columnStart {ps qs : List (Pattern Slot)} {part : Text} {found : Match Slot}
    (hps : (all ps).mayNote .name = false) (hqs : (all qs).mayNote .name = false)
    (h : (columnLike ps qs).matchStart? part = some found) :
    Nonempty (ColumnStart part (found.text .name)) := by
  obtain ⟨first, last⟩ := found
  obtain ⟨hfirst, hlast⟩ := mem_reached_of_matchStart? h
  subst hfirst
  simp only [mem_reached_all_cons] at hlast
  obtain ⟨_, hname, _, hgap, _, hnoted, hrest⟩ := hlast
  obtain ⟨_, htype, rfl⟩ := mem_reached_noted.mp hnoted
  rw [mem_reached_all_cons] at htype
  obtain ⟨_, hone, htype⟩ := htype
  obtain ⟨opening, qualifier, name, closing, rest₁, hspelled, hrest₁, rfl⟩ :=
    mem_reached_identifier.mp hname
  obtain ⟨blanks, rest₂, hrest₂, hne, hblank, rfl⟩ := mem_reached_atLeastOne.mp hgap
  obtain ⟨letter, rest₃, hrest₃, hletter, rfl⟩ := mem_reached_one.mp hone
  have htext : (Match.mk (.start part) last).text .name = name := by
    unfold Match.text
    rw [text?_of_mem_reached hqs hrest]
    have hnote : ∀ (start mid : Place Slot),
        (Match.mk (.start part) (Place.note .type start mid)).text?
        .name = (Match.mk (.start part) mid).text? .name := fun _ _ => by
      simp [Match.text?, Place.note]
    rw [hnote, text?_of_mem_reached hps htype]
    simp
  rw [htext]
  simp only [Place.rest_start, Place.rest_past, Place.rest_marked] at *
  exact ⟨⟨opening, qualifier, closing, blanks, letter, rest₃, hspelled, hne, hblank, hletter,
    by rw [hrest₁, hrest₂, hrest₃]; simp⟩⟩

namespace ColumnStart

variable {part name name' : Text}

theorem head?_blanks (start : ColumnStart part name) :
    ∀ c ∈ (start.blanks ++ start.letter :: start.rest).head?, isNameChar c = false :=
  forall_head?_append start.nonempty (fun c hc => isNameChar_of_isBlank (start.blank c hc)) _

/-- A part starts with one column name only. -/
theorem name_unique (start : ColumnStart part name) (start' : ColumnStart part name') :
    name = name' := by
  obtain ⟨hwritten, -⟩ := append_inj_of_stop start.spelled.isNameChar start'.spelled.isNameChar
    start.head?_blanks start'.head?_blanks (start.text.symm.trans start'.text)
  exact name_unique_of_spelled start.spelled start'.spelled hwritten

/-- Where a column starts, the permissive pattern for columns matches. -/
theorem exists_looseColumn (start : ColumnStart part name) :
    ∃ found, Grammar.looseColumn.matchStart? part = some found := by
  refine Option.isSome_iff_exists.mp (matchStart?_isSome_iff.mpr ?_)
  -- The letter alone will do as the type.
  have htype : ∀ (place : Place Slot) (p : Pattern Slot), place.rest = start.letter :: start.rest →
      place.past [start.letter] start.rest ∈ (all [one (fun c => isLatinLetter c || c == '_'),
        many .greedy isWordChar, opt p]).reached place := by
    intro place p hplace
    simp only [mem_reached_all_cons, mem_reached_all_nil]
    exact ⟨_, mem_reached_one.mpr ⟨start.letter, start.rest, hplace, start.isLetter, rfl⟩, _,
      mem_reached_many.mpr ⟨[], start.rest, rfl, by simp, rfl⟩, _,
      mem_reached_opt.mpr (.inr rfl), by simp⟩
  unfold Grammar.looseColumn
  simp only [mem_reached_all_cons, mem_reached_all_nil]
  refine ⟨_, _, mem_reached_identifier.mpr ⟨start.opening, start.qualifier, name, start.closing,
    start.blanks ++ start.letter :: start.rest, start.spelled, ?_, rfl⟩, _,
    mem_reached_atLeastOne.mpr ⟨start.blanks, start.letter :: start.rest, rfl, start.nonempty,
      start.blank, rfl⟩, _, mem_reached_noted.mpr ⟨_, htype _ _ rfl, rfl⟩, rfl⟩
  rw [Place.rest_start]
  exact start.text.trans (by simp)

theorem head?_words (start : ColumnStart part name) : part.words.head?
    = some (start.opening ++ (start.qualifier ++ (name ++ start.closing))) := by
  obtain ⟨c, blanks, hblanks⟩ := List.exists_cons_of_ne_nil start.nonempty
  have hc : isBlank c = true := start.blank c (by rw [hblanks]; exact List.mem_cons_self)
  have htext := start.text
  rw [hblanks] at htext
  refine (congrArg (fun text => (Text.words text).head?) htext).trans ?_
  exact Text.head?_words (List.forall_mem_nil fun d => isBlank d = true)
    (by simp [start.spelled.nonempty]) start.spelled.not_blank hc

/-- The first word of a column that is a constraint word is the name of the column. -/
theorem isConstraintWord_name (start : ColumnStart part name)
    (h : isConstraintWord (part.words.head?.getD []) = true) : isConstraintWord name = true := by
  rw [start.head?_words, Option.getD_some] at h
  have hword := isWordChar_of_isConstraintWord h
  simp only [List.mem_append] at hword
  have hopening : start.opening = [] := by
    rcases start.spelled.opening with hnil | ⟨c, hc, hopening⟩
    · exact hnil
    · have hquote := hword c (.inl (by rw [hopening]; exact List.mem_cons_self))
      rw [isWordChar_of_isOpenQuote hc] at hquote
      exact Bool.noConfusion hquote
  have hclosing : start.closing = [] := by
    rcases start.spelled.closing with hnil | ⟨c, hc, hclosing⟩
    · exact hnil
    · have hquote := hword c (.inr (.inr (.inr (by rw [hclosing]; exact List.mem_cons_self))))
      rw [isWordChar_of_isCloseQuote hc] at hquote
      exact Bool.noConfusion hquote
  have hqualifier : start.qualifier = [] := by
    rcases start.spelled.qualifier with hnil | ⟨schema, closing, opening, -, -, -, -, hqualifier⟩
    · exact hnil
    · have hpoint := hword '.' (.inr (.inl (by rw [hqualifier]; simp)))
      exact absurd hpoint (by decide)
  rwa [hopening, hclosing, hqualifier, List.nil_append, List.nil_append, List.append_nil] at h

end ColumnStart

/-! ### One part, and all parts -/

/-- A permissive draft that has the table and the columns of a strict one. -/
structure SameColumns (draft : Draft) (state : Draft × List Text) : Prop where
  table : state.1.table = draft.table
  columns : state.1.columns.map Er.Column.name = draft.columns.map Er.Column.name

theorem salvagePart_of_isConstraintWord {state : Draft × List Text} {part : Text}
    (h : isConstraintWord (part.words.head?.getD []) = true) : salvagePart state part = state := by
  simp [salvagePart, h]

theorem salvagePart_of_otherConstraint {state : Draft × List Text} {part : Text}
    (h : (Grammar.otherConstraint.matchStart? part).isSome = true) :
    salvagePart state part = state := by
  simp [salvagePart, h]

/-- Whatever the strict reading makes of a part, the permissive reading makes the same columns. -/
theorem SameColumns.salvagePart {draft draft' : Draft} {state : Draft × List Text} {part : Text}
    (hdot : '\u0130' ∉ part) (h : SameColumns draft state) (hpart : PartReading draft part draft') :
    SameColumns draft' (Schema.salvagePart state part) := by
  cases hpart with
  | primaryKey primary =>
      rw [salvagePart_of_isConstraintWord
        (isConstraintWord_of_key (by decide) (by decide) (by decide) hdot primary)]
      exact ⟨h.table, h.columns⟩
  | foreignKey _ foreign =>
      rw [salvagePart_of_isConstraintWord
        (isConstraintWord_of_key (by decide) (by decide) (by decide) hdot foreign)]
      exact ⟨h.table, h.columns⟩
  | constraint _ _ other =>
      rw [salvagePart_of_otherConstraint other]
      exact h
  | @column found _ _ other column word =>
      obtain ⟨start⟩ := exists_columnStart (by decide) (by decide) column
      have hfirst : isConstraintWord (part.words.head?.getD []) = false := by
        by_contra hconstraint
        rw [start.isConstraintWord_name (Bool.eq_true_of_not_eq_false hconstraint)] at word
        exact Bool.noConfusion word
      obtain ⟨loose, hloose⟩ := start.exists_looseColumn
      obtain ⟨start'⟩ := exists_columnStart (by decide) (by decide) hloose
      have hname : loose.text .name = found.text .name := start'.name_unique start
      have hstep : (Schema.salvagePart state part).1 = state.1.addColumn loose loose.rest := by
        simp [Schema.salvagePart, hfirst, other, hloose]
      refine ⟨?_, ?_⟩
      · rw [hstep, Draft.table_addColumn, Draft.table_addColumn, h.table]
      · rw [hstep, Draft.columns_addColumn, Draft.columns_addColumn, List.map_append,
          List.map_append, h.columns]
        simp [Draft.columnOf, hname]

theorem SameColumns.foldl_salvagePart {parts : List Text} {draft draft' : Draft}
    {state : Draft × List Text} (hdot : ∀ part ∈ parts, '\u0130' ∉ part)
    (h : SameColumns draft state) (hparts : parts.foldlM readPart draft = .ok draft') :
    SameColumns draft' (parts.foldl Schema.salvagePart state) := by
  induction parts generalizing draft state with
  | nil =>
      obtain rfl : draft = draft' := by simpa [pure, Except.pure] using hparts
      exact h
  | cons part parts ih =>
      obtain ⟨mid, hpart, hrest⟩ := (foldlM_readPart_cons ..).mp hparts
      obtain ⟨hhere, hlater⟩ := List.forall_mem_cons.mp hdot
      exact ih hlater (h.salvagePart hhere ((readPart_eq_ok_iff ..).mp hpart).2) hrest

/-! ### The whole table -/

theorem mem_of_mem_parts {content part : Text} {c : Char} (hpart : part ∈ parts content)
    (hc : c ∈ part) : c ∈ content := by
  have hpiece : ∃ piece ∈ Text.piecesBy ListScan.step ListScan.isCut {} content,
      part = piece.trim := by
    unfold parts at hpart
    rcases List.mem_append.mp hpart with hinner | hlast
    · obtain ⟨piece, hpiece, rfl⟩ := List.mem_map.mp hinner
      exact ⟨piece, List.mem_of_mem_dropLast hpiece, rfl⟩
    · cases hpieces : (Text.piecesBy ListScan.step ListScan.isCut {} content).getLast? with
      | none => simp [hpieces, Text.trim, Text.strip, Text.dropStart, Text.dropEnd] at hlast
      | some piece =>
          refine ⟨piece, List.mem_of_getLast? hpieces, ?_⟩
          rw [hpieces, Option.getD_some] at hlast
          split at hlast
          · exact absurd hlast List.not_mem_nil
          · exact List.mem_singleton.mp hlast
  obtain ⟨piece, hpiece, rfl⟩ := hpiece
  exact Text.mem_of_mem_piecesBy hpiece (Text.mem_of_mem_strip hc)

/-- The list of a bracketed text holds no other characters than the text. -/
theorem mem_of_mem_body? {brackets : Brackets} {text list after : Text} {c : Char}
    (h : brackets.body? text = some (list, after)) (hc : c ∈ list) : c ∈ text := by
  unfold Brackets.body? at h
  obtain ⟨stop, -, heq⟩ := Option.map_eq_some_iff.mp h
  obtain ⟨rfl, -⟩ := Prod.mk.inj heq
  exact List.mem_of_mem_take (List.mem_of_mem_drop hc)

/-- Blanks in front of a bracket are skipped. -/
theorem dropWhile_bracket {space rest : Text} (hspace : ∀ c ∈ space, isBlank c = true) :
    (space ++ '(' :: rest).dropWhile (· != '(') = '(' :: rest := by
  refine dropWhile_append_of_stop (fun c hc => ?_) (forall_head?_cons (by decide) rest)
  have hne : c ≠ '(' := by
    rintro rfl
    exact absurd (hspace _ hc) (by decide)
  simpa using hne

theorem looseList_eq {space rest list after : Text} (hspace : ∀ c ∈ space, isBlank c = true)
    (hbody : Brackets.round.body? ('(' :: rest) = some (list, after)) :
    looseList (space ++ '(' :: rest) = list := by
  simp [looseList, dropWhile_bracket hspace, hbody]

/-- A list that is not closed goes as far as the statement does, up to its semicolon. -/
theorem looseList_of_unclosed {space list : Text} (hspace : ∀ c ∈ space, isBlank c = true)
    (hlast : ∀ c ∈ list.getLast?, c ≠ ';')
    (hbody : Brackets.round.body? ('(' :: (list ++ [';'])) = none) :
    looseList (space ++ '(' :: (list ++ [';'])) = list := by
  have hblank : Text.dropEnd isBlank (list ++ [';']) = list ++ [';'] := by
    refine Text.dropEnd_eq_self fun c hc => ?_
    obtain rfl : ';' = c := by simpa using hc
    decide
  have hsemicolon : Text.dropEnd (· == ';') (list ++ [';']) = list := by
    have hstop : ∀ c ∈ list.reverse.head?, (c == ';') = false := by
      intro c hc
      rw [List.head?_reverse] at hc
      simpa using hlast c hc
    unfold Text.dropEnd
    rw [List.reverse_append, dropWhile_append_of_stop (by simp) hstop, List.reverse_reverse]
  simp [looseList, dropWhile_bracket hspace, hbody, hblank, hsemicolon]

theorem salvageTable_of_find? {statement : Text} {header : Match Slot}
    (h : Grammar.looseTable.find? statement = some header) {state : Draft × List Text}
    (hstate : (parts (looseList header.rest)).foldl salvagePart
      (salvageKeys statement { table := header.text .name }, []) = state) :
    salvageTable statement = some { definition := state.1.finish, unreadable := state.2 } := by
  subst hstate
  rw [salvageTable, h]
  rfl

/-- The keys that are collected first touch neither the table nor its columns. -/
theorem sameColumns_salvageKeys (statement : Text) (start : Draft) :
    SameColumns start (salvageKeys statement start, []) := by
  refine salvageKeys_induction (motive := fun draft => SameColumns start (draft, []))
    statement ?_ ?_ ?_
  · exact ⟨rfl, rfl⟩
  · exact fun draft found _ hsame => ⟨hsame.table, hsame.columns⟩
  · exact fun draft found _ hsame => ⟨hsame.table, hsame.columns⟩

/-- **Where the strict reading succeeds, so does the permissive reading, and it makes out the same
table with the same columns.**  Only the capital i with a dot is not read alike. -/
theorem salvageTable_of_readTable {statement : Text} {definition : Definition}
    (hdot : '\u0130' ∉ statement) (h : readTable statement = .ok definition) :
    ∃ salvage, salvageTable statement = some salvage ∧
      salvage.definition.entity.name = definition.entity.name ∧
      salvage.definition.entity.columns.map (·.name) = definition.entity.columns.map (·.name) := by
  obtain ⟨header, list, after, draft, hheader, hbody, hparts, rfl⟩ := (readTable_eq_ok_iff ..).mp h
  obtain ⟨head, hstatement, hname⟩ := exists_tableHead_of_createTable hheader
  obtain ⟨loose, hloose, hloose_name, hloose_rest⟩ := find?_looseTable head header.rest
  rw [← hstatement] at hloose
  have hlist : looseList loose.rest = list := by
    rw [hloose_rest]
    exact looseList_eq head.space_blank hbody
  have hdots : ∀ part ∈ parts list, '\u0130' ∉ part := by
    intro part hpart hmem
    rcases List.mem_cons.mp (mem_of_mem_body? hbody (mem_of_mem_parts hpart hmem)) with heq | hrest
    · exact absurd heq (by decide)
    · refine hdot ?_
      rw [hstatement]
      simp [TableHead.before, hrest]
  have hstart := sameColumns_salvageKeys statement { table := header.text .name }
  have hend := hstart.foldl_salvagePart hdots hparts
  rw [hname, ← hloose_name, ← hlist] at hend
  refine ⟨_, salvageTable_of_find? hloose rfl, ?_, ?_⟩
  · rw [Draft.name_finish, Draft.name_finish, hend.table]
  · exact (Draft.map_name_finish _).trans (hend.columns.trans (Draft.map_name_finish _).symm)

/-- A temporary table with quotes, a schema and an index, read strictly and permissively. -/
theorem salvageTable_temporary :
    ∃ definition salvage,
      readTable "CREATE TEMP TABLE `a`.[b] (key INT, UNIQUE (key))".toList = .ok definition ∧
      salvageTable "CREATE TEMP TABLE `a`.[b] (key INT, UNIQUE (key))".toList = some salvage ∧
      salvage.definition.entity.name = definition.entity.name ∧
      salvage.definition.entity.columns.map (·.name) = definition.entity.columns.map (·.name) := by
  have hread : (readTable "CREATE TEMP TABLE `a`.[b] (key INT, UNIQUE (key))".toList).isOk
      = true := by
    decide +kernel
  cases h : readTable "CREATE TEMP TABLE `a`.[b] (key INT, UNIQUE (key))".toList with
  | error error =>
      rw [h] at hread
      exact Bool.noConfusion hread
  | ok definition =>
      obtain ⟨salvage, hsalvage, hname, hcolumns⟩ := salvageTable_of_readTable (by decide) h
      exact ⟨definition, salvage, rfl, hsalvage, hname, hcolumns⟩

end Diagrams.Schema
