/-
What the permissive reading makes of a listing.

It goes another way than the strict reading.  It searches for the table, takes the list as far as it
goes where the bracket that closes it is missing, collects the keys from the whole statement before
it looks at any part, and then reads the columns with a pattern of its own.  On a listing it ends up
with the same draft, but for the names of the primary key: these come in another order, and numbers
may be among them.  Marking a key does not depend on the one and passes over the other, so the table
is the same, whether the list is closed or not (`salvageTable_of_listing`).
-/
import Diagrams.Proofs.Schema.FoundKeys
import Diagrams.Proofs.Schema.LoosePart
import Diagrams.Proofs.Schema.Numerals

namespace Diagrams.Schema.Written

open Pattern

variable {rest : Text}

/-! ### The keys of a part -/

/-- The names that were recovered are those that were listed, and numerals perhaps. -/
structure Recovers (listed names : List Text) : Prop where
  complete : ∀ name ∈ listed, name ∈ names
  sound : ∀ name ∈ names, name ∈ listed ∨ IsNumeral name

theorem Recovers.append {listed names listed' names' : List Text} (h : Recovers listed names)
    (h' : Recovers listed' names') : Recovers (listed ++ listed') (names ++ names') := by
  constructor
  · intro name hname
    rcases List.mem_append.mp hname with hhere | hlater
    · exact List.mem_append_left _ (h.complete name hhere)
    · exact List.mem_append_right _ (h'.complete name hlater)
  · intro name hname
    rcases List.mem_append.mp hname with hhere | hlater
    · exact (h.sound name hhere).imp_left (List.mem_append_left _)
    · exact (h'.sound name hlater).imp_left (List.mem_append_right _)

namespace Item

/-- What a part is found with by the search for foreign keys. -/
def foreignTexts : Item → List (Text × Text × Option Text)
  | column _ => []
  | key _ written => written.foreignTexts

/-- The search for primary keys finds what a part lists. -/
theorem finds_primary {item : Item} (h : item.WellFormed) (hrest : Closes rest) :
    ∃ lists, primaryKeySearch.pattern.Finds foundColumns item.text rest lists ∧
      Recovers item.listedNames (lists.flatMap identifierList) := by
  cases item with
  | column written =>
      obtain ⟨lists, hlists, hlengths⟩ := finds_column h.1 hrest
      refine ⟨lists, hlists, List.forall_mem_nil _, fun name hname => .inr ?_⟩
      obtain ⟨list, hlist, hname⟩ := List.mem_flatMap.mp hname
      rw [hlengths list hlist] at hname
      exact isNumeral_of_mem_identifierList (DataType.mem_lengths h.1.type) hname
  | key constraint written =>
      obtain ⟨hconstraint, hkey⟩ := h
      have hfound : primaryKeySearch.pattern.Finds foundColumns
          (constraintText constraint ++ written.text) rest ([] ++ written.primaryLists) :=
        (skips_constraint_key hconstraint).finds.append (finds_key_primary hkey)
      have hnames := Key.flatMap_primaryLists hkey
      refine ⟨written.primaryLists, hfound, ?_, ?_⟩
      · rw [hnames]
        exact fun name hname => hname
      · rw [hnames]
        exact fun name hname => .inl hname

/-- The search for foreign keys finds what a part declares. -/
theorem finds_foreign {item : Item} (h : item.WellFormed) (hrest : Closes rest) :
    foreignKeySearch.pattern.Finds foundReference item.text rest item.foreignTexts := by
  cases item with
  | column written => exact (skips_column_foreign h.1 hrest).finds
  | key constraint written =>
      have hfound : foreignKeySearch.pattern.Finds foundReference
          (constraintText constraint ++ written.text) rest ([] ++ written.foreignTexts) :=
        (skips_constraint_key h.1).finds.append (finds_key_foreign h.2)
      exact hfound

theorem flatMap_foreignTexts {item : Item} (h : item.WellFormed) (table : Text) :
    (item.foreignTexts.flatMap fun texts => foreignKeys table texts.1 texts.2.1 texts.2.2)
      = item.references table := by
  cases item with
  | column written => rfl
  | key constraint written => exact Key.flatMap_foreignTexts h.2 table

end Item

/-! ### All keys -/

theorem foldl_addPrimaryKey (results : List (Match Slot)) (draft : Draft) :
    results.foldl Draft.addPrimaryKey draft = { draft with
      primaryKeys := draft.primaryKeys ++ (results.map foundColumns).flatMap identifierList } := by
  induction results generalizing draft with
  | nil => simp
  | cons found others ih =>
      rw [List.foldl_cons, ih]
      simp [Draft.addPrimaryKey, foundColumns]

theorem foldl_addForeignKeys (results : List (Match Slot)) (draft : Draft) :
    results.foldl (fun draft found => draft.addForeignKeys (found.text .columns) found) draft
      = { draft with
          foreignKeys := draft.foreignKeys ++ (results.map foundReference).flatMap fun texts =>
            foreignKeys draft.table texts.1 texts.2.1 texts.2.2 } := by
  induction results generalizing draft with
  | nil => simp
  | cons found others ih =>
      rw [List.foldl_cons, ih]
      simp [Draft.addForeignKeys, foundReference]

namespace Listing

variable {listing : Listing} {ending : Text}

/-- An ending that the permissive reading tells from the list in front of it. -/
structure EndsWith (listing : Listing) (ending : Text) : Prop where
  closes : Closes ending
  noWord : ∀ c ∈ ending, isWordChar c = false
  list : looseList ([' '] ++ '(' :: (listing.list ++ ending)) = listing.list

/-- What is recovered part by part is recovered from all parts. -/
theorem recovers_of_forall₂ {items : List Item} {lists : List (List Text)}
    (h : List.Forall₂ (fun item lists => Recovers item.listedNames (lists.flatMap identifierList))
      items lists) :
    Recovers (items.flatMap Item.listedNames) (lists.flatten.flatMap identifierList) := by
  induction h with
  | nil => exact ⟨List.forall_mem_nil _, List.forall_mem_nil _⟩
  | cons hitem _ ih =>
      rw [List.flatten_cons, List.flatMap_append]
      exact hitem.append ih

/-- The keys that are collected from the whole statement. -/
theorem salvageKeys_written (h : listing.WellFormed) (hending : listing.EndsWith ending) :
    ∃ names, Recovers (listing.items.flatMap Item.listedNames) names ∧
      salvageKeys (listing.written ending) { table := listing.name.name } =
        { table := listing.name.name, primaryKeys := names
          foreignKeys := listing.items.flatMap (Item.references listing.name.name) } := by
  have hprimary : ∃ lists : List (List Text), primaryKeySearch.pattern.Finds foundColumns
      listing.list ending lists.flatten ∧
        List.Forall₂ (fun item lists => Recovers item.listedNames (lists.flatMap identifierList))
          listing.items lists :=
    finds_list (fun item hitem rest hrest => Item.finds_primary (h.items item hitem) hrest)
      hending.closes
  obtain ⟨lists, hlists, hlisted⟩ := hprimary
  have hforeign : ∃ texts : List (List (Text × Text × Option Text)),
      foreignKeySearch.pattern.Finds foundReference listing.list ending texts.flatten ∧
        List.Forall₂ (fun item texts => item.foreignTexts = texts) listing.items texts :=
    finds_list (fun item hitem rest hrest =>
      ⟨_, Item.finds_foreign (h.items item hitem) hrest, rfl⟩) hending.closes
  obtain ⟨texts, htexts, hdeclared⟩ := hforeign
  have hfoundColumns : (Grammar.primaryKeyAnywhere.findAll (listing.written ending)).map
      foundColumns = lists.flatten := by
    rw [← pattern_primaryKeySearch]
    exact finds_written h hending.noWord hlists
  have hfoundReferences : (Grammar.foreignKeyAnywhere.findAll (listing.written ending)).map
      foundReference = texts.flatten := by
    rw [← pattern_foreignKeySearch]
    exact finds_written h hending.noWord htexts
  have hkeys : (texts.flatten.flatMap fun texts =>
      foreignKeys listing.name.name texts.1 texts.2.1 texts.2.2)
        = listing.items.flatMap (Item.references listing.name.name) := by
    have hsame : listing.items.map Item.foreignTexts = texts := by
      rw [← List.forall₂_eq_eq_eq, List.forall₂_map_left_iff]
      exact hdeclared
    rw [← hsame, ← List.flatMap_def, List.flatMap_assoc]
    exact List.flatMap_congr fun item hitem => Item.flatMap_foreignTexts (h.items item hitem) _
  refine ⟨_, recovers_of_forall₂ hlisted, ?_⟩
  unfold salvageKeys
  rw [foldl_addPrimaryKey, foldl_addForeignKeys, hfoundColumns, hfoundReferences, hkeys]
  simp

/-! ### The table -/

/-- The words and the name in front of the list. -/
def head (h : listing.WellFormed) : TableHead where
  indent := []
  create := spaced ["CREATE"]
  temporary := []
  table := spaced ["TABLE"]
  condition := []
  opening := listing.name.quotes.opening
  qualifier := []
  name := listing.name.name
  closing := listing.name.quotes.closing
  space := [' ']
  indent_blank := List.forall_mem_nil _
  create_spells := phrase_spaced _
  temporary_spells := .lasting
  table_spells := phrase_spaced _
  condition_spells := .inl rfl
  spelled := Name.spelled h.name
  space_blank := forall_blank_space

theorem written_eq_before (h : listing.WellFormed) (ending : Text) :
    listing.written ending = (head h).before (listing.list ++ ending) := by
  rw [written_eq]
  simp [TableHead.before, TableHead.written, head, Name.text]

/-- No numeral stands for a column of a listing. -/
theorem columnIndex?_of_isNumeral (h : listing.WellFormed) {numeral : Text}
    (hnumeral : IsNumeral numeral) :
    Er.Entity.columnIndex? { name := listing.name.name
                             columns := listing.items.flatMap Item.plain } numeral = none := by
  refine List.findIdx?_eq_none_iff.mpr fun column hcolumn => ?_
  obtain ⟨item, hitem, hplain⟩ := List.mem_flatMap.mp hcolumn
  cases item with
  | key constraint written => exact absurd hplain List.not_mem_nil
  | column written =>
      obtain rfl := List.mem_singleton.mp hplain
      have hname : written.plain.name.lower ≠ numeral.lower :=
        lower_ne_of_numeral hnumeral (h.items _ hitem).1.name
      simpa using hname

/-- Which names were collected first, and whether numerals are among them, does not matter. -/
theorem finish_draft (h : listing.WellFormed) {names : List Text}
    (hnames : Recovers (listing.items.flatMap Item.listedNames) names) :
    (listing.draft (names ++ listing.items.flatMap Item.markedNames)).finish
      = (listing.draft listing.keyNames).finish := by
  have hmem : ∀ name, name ∈ listing.keyNames ↔
      name ∈ listing.items.flatMap Item.listedNames ∨
        name ∈ listing.items.flatMap Item.markedNames := by
    intro name
    simp only [keyNames, List.mem_flatMap, List.mem_append]
    constructor
    · rintro ⟨item, hitem, hmarked | hlisted⟩
      · exact .inr ⟨item, hitem, hmarked⟩
      · exact .inl ⟨item, hitem, hlisted⟩
    · rintro (⟨item, hitem, hlisted⟩ | ⟨item, hitem, hmarked⟩)
      · exact ⟨item, hitem, .inr hlisted⟩
      · exact ⟨item, hitem, .inl hmarked⟩
  let entity : Er.Entity :=
    { name := listing.name.name, columns := listing.items.flatMap Item.plain }
  have hsame : ∀ place, (∃ name ∈ names ++ listing.items.flatMap Item.markedNames,
      entity.columnIndex? name = some place) ↔
        ∃ name ∈ listing.keyNames, entity.columnIndex? name = some place := by
    intro place
    constructor
    · rintro ⟨name, hname, hplace⟩
      refine ⟨name, (hmem name).mpr ?_, hplace⟩
      rcases List.mem_append.mp hname with hcollected | hmarked
      · rcases hnames.sound name hcollected with hlisted | hnumeral
        · exact .inl hlisted
        · rw [columnIndex?_of_isNumeral h hnumeral] at hplace
          exact absurd hplace (by simp)
      · exact .inr hmarked
    · rintro ⟨name, hname, hplace⟩
      refine ⟨name, ?_, hplace⟩
      rcases (hmem name).mp hname with hlisted | hmarked
      · exact List.mem_append_left _ (hnames.complete name hlisted)
      · exact List.mem_append_right _ hmarked
  have hkeys := entity.applyKeys_congr (listing.items.flatMap (Item.references listing.name.name))
    hsame
  exact congrArg (Definition.mk · (listing.items.flatMap (Item.references listing.name.name))) hkeys

/-- The permissive reading recovers the table of a listing, however the listing ends. -/
theorem salvageTable_written (h : listing.WellFormed) (hending : listing.EndsWith ending) :
    salvageTable (listing.written ending)
      = some { definition := (listing.draft listing.keyNames).finish, unreadable := [] } := by
  obtain ⟨header, hheader, hname, hrest⟩ := find?_looseTable (head h) (listing.list ++ ending)
  rw [← written_eq_before h] at hheader
  have hlist : looseList header.rest = listing.list := by
    rw [hrest]
    exact hending.list
  obtain ⟨names, hnames, hkeys⟩ := salvageKeys_written h hending
  have hstate : (Schema.parts (looseList header.rest)).foldl salvagePart
      (salvageKeys (listing.written ending) { table := header.text .name }, [])
        = (listing.draft (names ++ listing.items.flatMap Item.markedNames), []) := by
    have hname : header.text .name = listing.name.name := hname
    have hparts : Schema.parts listing.list = listing.items.map Item.text :=
      (partsWritten h).parts_joined
    rw [hlist, hparts, hname, hkeys, foldl_salvagePart_items h.items]
    simp [draft]
  rw [salvageTable_of_find? hheader hstate, finish_draft h hnames]

/-! ### The two endings -/

theorem allWritten_list (h : listing.WellFormed) : AllWritten listing.list :=
  .joined allWritten_partSeparator (List.forall_mem_map.mpr fun item hitem =>
    Item.allWritten (h.items item hitem))

theorem endsWith_closed (h : listing.WellFormed) : listing.EndsWith [')', ';'] where
  closes := closes_bracket _
  noWord := isWordChar_pair (by decide) (by decide)
  list := looseList_eq forall_blank_space
    (Brackets.body?_of_nested (Brackets.apart_round (by decide)) (nested_list h) [';'])

theorem endsWith_unclosed (h : listing.WellFormed) : listing.EndsWith [';'] where
  closes := by
    intro c hc
    obtain rfl : ';' = c := by simpa using hc
    decide
  noWord := List.forall_mem_singleton.mpr (by decide)
  list := by
    have hsemicolon : Nested .round Brackets.isQuote (fun _ => false) [';'] :=
      .plain rfl (by decide) (by decide) (by decide) rfl .nil
    refine looseList_of_unclosed forall_blank_space (fun c hc => ?_)
      (Brackets.body?_of_unclosed (Brackets.apart_round (by decide))
        ((nested_list h).append hsemicolon))
    exact (allWritten_list h).ne_semicolon c (List.mem_of_getLast? hc)

end Listing

/-- **The permissive reading recovers what the strict reading reads**: from the statement of a
listing and also where the bracket that closes its list is missing, it makes out the same table with
the same foreign keys, and leaves no part unread. -/
theorem salvageTable_of_listing {listing : Listing} (h : listing.WellFormed) :
    ∃ definition, readTable listing.statement = .ok definition ∧
      salvageTable listing.statement = some { definition, unreadable := [] } ∧
      salvageTable listing.truncated = some { definition, unreadable := [] } :=
  ⟨_, readTable_statement h, Listing.salvageTable_written h (Listing.endsWith_closed h),
    Listing.salvageTable_written h (Listing.endsWith_unclosed h)⟩

/-- A listing with a key in front of its columns, and with a column that looks like a key. -/
theorem salvageTable_of_listing_orders :
    ∃ definition,
      readTable ("CREATE TABLE `orders` (CONSTRAINT \"pk\" PRIMARY KEY (no, [part]), no INT, " ++
        "xPrimary KEY(10,2) NOT NULL, part INT PRIMARY KEY, " ++
        "FOREIGN KEY (part) REFERENCES parts(id));").toList = .ok definition ∧
      salvageTable ("CREATE TABLE `orders` (CONSTRAINT \"pk\" PRIMARY KEY (no, [part]), no INT, " ++
        "xPrimary KEY(10,2) NOT NULL, part INT PRIMARY KEY, " ++
        "FOREIGN KEY (part) REFERENCES parts(id));").toList
          = some { definition, unreadable := [] } ∧
      salvageTable ("CREATE TABLE `orders` (CONSTRAINT \"pk\" PRIMARY KEY (no, [part]), no INT, " ++
        "xPrimary KEY(10,2) NOT NULL, part INT PRIMARY KEY, " ++
        "FOREIGN KEY (part) REFERENCES parts(id);").toList
          = some { definition, unreadable := [] } := by
  let orders : Listing :=
    { name := ⟨"orders".toList, .backticks⟩
      items :=
        [.key (some ⟨"pk".toList, .doubleQuotes⟩)
            (.primary [⟨"no".toList, .none⟩, ⟨"part".toList, .brackets⟩]),
          .column { name := ⟨"no".toList, .none⟩, type := { word := "INT".toList } },
          .column { name := ⟨"xPrimary".toList, .none⟩
                    type := { word := "KEY".toList, lengths := ["10".toList, "2".toList] }
                    marks := [.notNull] },
          .column { name := ⟨"part".toList, .none⟩, type := { word := "INT".toList }
                    marks := [.primaryKey] },
          .key none (.foreign [⟨"part".toList, .none⟩] ⟨"parts".toList, .none⟩
            [⟨"id".toList, .none⟩])] }
  have horders : orders.WellFormed := by decide
  have hrecovered := salvageTable_of_listing horders
  have hstatement : orders.statement =
      ("CREATE TABLE `orders` (CONSTRAINT \"pk\" PRIMARY KEY (no, [part]), no INT, " ++
        "xPrimary KEY(10,2) NOT NULL, part INT PRIMARY KEY, " ++
        "FOREIGN KEY (part) REFERENCES parts(id));").toList := by decide +kernel
  have htruncated : orders.truncated =
      ("CREATE TABLE `orders` (CONSTRAINT \"pk\" PRIMARY KEY (no, [part]), no INT, " ++
        "xPrimary KEY(10,2) NOT NULL, part INT PRIMARY KEY, " ++
        "FOREIGN KEY (part) REFERENCES parts(id);").toList := by decide +kernel
  rwa [hstatement, htruncated] at hrecovered

end Diagrams.Schema.Written
