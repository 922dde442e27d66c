/-
Written tables, as the strict reading takes them.

The head of a written table is matched up to the bracket that opens its list, the list falls into
the parts that were written, and each part adds to the draft what it stands for.  What the draft
holds at the end, marked with its keys, is the table (`readTable_body`).
-/
import Diagrams.Proofs.Schema.ColumnPart

namespace Diagrams.Schema.Written

open Pattern

variable {place : Place Slot} {next : Continuation Slot} {found : Place Slot}

/-! ### The head -/

/-- Where another word starts, there are no words for a temporary table. -/
theorem not_mem_reached_temporary {rest : Text} (hrest : place.rest = spaced ["TABLE"] ++ rest)
    (mid : Place Slot) :
    ¬ mid ∈ (all [opt (oneOf [Grammar.leading ["GLOBAL"], Grammar.leading ["LOCAL"]]),
      keyword "TEMP", opt (keyword "ORARY"), gap]).reached place := by
  intro hmid
  have h : place.rest = "TABLE".toList ++ ' ' :: rest := by
    simp only [hrest, spaced, List.append_assoc, List.cons_append, List.nil_append]
  obtain ⟨mid', hscope, hwords⟩ := mem_reached_all_cons.mp hmid
  obtain ⟨_, hkeyword, -⟩ := mem_reached_all_cons.mp hwords
  rcases mem_reached_opt.mp hscope with hscope | rfl
  · rcases mem_reached_oneOf_cons.mp hscope with hglobal | hlocal
    · exact not_mem_reached_leading h (spells_self _) (by decide) (by decide) (by decide) _ hglobal
    · exact not_mem_reached_leading h (spells_self _) (by decide) (by decide) (by decide) _ hlocal
  · obtain ⟨text, rest', hrest', hspells, -⟩ := mem_reached_keyword.mp hkeyword
    have hagree := agree_of_spells (by decide) (by decide) (spells_self "TABLE") hspells
      (h.symm.trans hrest')
    exact absurd hagree (by decide)

theorem run_createTable {written : Name} {rest : Text} (h : isIdentifier written.name = true)
    (hrest : place.rest = spaced ["CREATE"] ++ (spaced ["TABLE"] ++
      (written.text ++ ' ' :: '(' :: rest)))
    (hnext : next ((place.past (spaced ["CREATE"] ++ (spaced ["TABLE"] ++
      (written.text ++ [' ', '(']))) rest).marked .name written.name
        (written.quotes.closing ++ ' ' :: '(' :: rest)) = some found) :
    Grammar.createTable.run place next = some found := by
  have hspace : ∀ c ∈ (' ' :: '(' :: rest).head?, isNameChar c = false :=
    forall_head?_cons (by decide) _
  have hname : ∀ c ∈ (written.text ++ ' ' :: '(' :: rest).head?, isBlank c = false :=
    (Name.solid h).head?_append _
  have htable : ∀ c ∈ (spaced ["TABLE"] ++ (written.text ++ ' ' :: '(' :: rest)).head?,
      isBlank c = false := (phrase_spaced ["TABLE"]).head? (by decide) hname
  unfold Grammar.createTable
  rw [run_all_cons]
  refine run_many_greedy (List.nil_append _).symm (List.forall_mem_nil _) ?_ ?_
  · rw [hrest]
    exact (phrase_spaced ["CREATE"]).head? (by decide) htable
  rw [Place.past_nil rfl, run_all_cons]
  refine run_leading (phrase_spaced ["CREATE"]) (by decide) hrest htable ?_
  rw [run_all_cons, run_opt_of_none (run_eq_none (not_mem_reached_temporary rfl)), run_all_cons]
  refine run_leading (phrase_spaced ["TABLE"]) (by decide) rfl hname ?_
  rw [run_all_cons, Grammar.ifNotExists, run_opt_of_none, run_all_cons]
  · refine run_identifier_text h rfl hspace ?_
    rw [run_all_cons]
    refine run_spaces_space rfl (by decide) ?_
    rw [run_all_cons, run_lit rfl, run_all_nil]
    simpa using hnext
  · exact run_eq_none (not_mem_reached_condition (Name.isNameChar h) forall_blank_space rfl)

/-- A written head is matched up to the list. -/
theorem matchStart?_head {written : Name} {text rest : Text} (h : isIdentifier written.name = true)
    (htext : text = spaced ["CREATE"] ++
      (spaced ["TABLE"] ++ (written.text ++ ' ' :: '(' :: rest))) :
    ∃ found, Grammar.createTable.matchStart? text = some found ∧
      found.text .name = written.name ∧ found.rest = rest := by
  have hrun : Grammar.createTable.run (.start text) some = some _ := run_createTable h htext rfl
  refine ⟨_, by rw [matchStart?, matchAt?, hrun]; rfl, ?_, rfl⟩
  simp [Match.text]

/-- A statement that declares a table, up to its list and behind it. -/
theorem create_append (name : Name) (inner after : Text) :
    (spaced ["CREATE", "TABLE"] ++ (name.text ++ ' ' :: bracketed inner)) ++ after
      = spaced ["CREATE"] ++ (spaced ["TABLE"] ++ (name.text ++ ' ' :: '(' ::
          (inner ++ ')' :: after))) := by
  simp only [bracketed, spaced, List.append_assoc, List.cons_append, List.nil_append]

/-- A statement that declares a table is no change to one. -/
theorem matchStart?_alterTable_create {text rest : Text}
    (htext : text = spaced ["CREATE"] ++ rest) :
    Grammar.alterTable.matchStart? text = none := by
  refine matchStart?_eq_none_iff.mpr fun mid hmid => ?_
  obtain ⟨_, hspaces, hmid⟩ := mem_reached_all_cons.mp hmid
  obtain ⟨_, hleading, -⟩ := mem_reached_all_cons.mp hmid
  have hword : (Place.start text : Place Slot).rest = "CREATE".toList ++ ' ' :: rest := by
    rw [Place.rest_start, htext]
    simp only [spaced, List.append_assoc, List.cons_append, List.nil_append]
  have hfirst : ∀ c ∈ (Place.start text : Place Slot).rest.head?, isBlank c = false := by
    intro c hc
    rw [hword] at hc
    exact isBlank_of_isWordChar (head?_spells (spells_self "CREATE") (by decide) c hc)
  have hstay : (spaces : Pattern Slot).reached (.start text) = [_] :=
    Place.reach_of_stop hfirst .greedy
  rw [hstay, List.mem_singleton] at hspaces
  subst hspaces
  exact not_mem_reached_leading hword (spells_self "CREATE") (by decide) (by decide) (by decide) _
    hleading

/-- A written table is no change to a table. -/
theorem matchStart?_alterTable (table : Table) :
    Grammar.alterTable.matchStart? (table.body ++ [';']) = none :=
  matchStart?_alterTable_create (create_append table.name _ [';'])

/-! ### The list -/

/-- The parts of a list as scans see them: no blank at an end, and closed quotes and brackets, for
the scan that cuts the list and for the one that looks for its end. -/
structure PartsWritten (parts : List Text) : Prop where
  solid : ∀ part ∈ parts, Solid part
  listed : ∀ part ∈ parts, Uncut ListScan.isQuote part
  bracketed : ∀ part ∈ parts, Uncut Brackets.isQuote part

theorem PartsWritten.of_uncut {parts : List Text} (hsolid : ∀ part ∈ parts, Solid part)
    (huncut : ∀ {isQuote : Char → Bool}, QuotesApart isQuote → ∀ part ∈ parts, Uncut isQuote part) :
    PartsWritten parts :=
  ⟨hsolid, huncut quotesApart_listScan, huncut quotesApart_brackets⟩

/-- The list falls into its parts. -/
theorem PartsWritten.parts_joined {parts : List Text} (h : PartsWritten parts) :
    Schema.parts (Text.joined partSeparator parts) = parts :=
  Schema.parts_joined h.listed (fun part hpart => (h.solid part hpart).ne_nil)
    (fun part hpart => (h.solid part hpart).head?) (fun part hpart => (h.solid part hpart).getLast?)

/-- A statement that lists the parts of a table is read strictly if each part is. -/
theorem readTable_of_parts {name : Name} {parts : List Text} {text : Text} {draft : Draft}
    (hname : isIdentifier name.name = true) (h : PartsWritten parts)
    (htext : text = spaced ["CREATE"] ++ (spaced ["TABLE"] ++ (name.text ++ ' ' :: '(' ::
      (Text.joined partSeparator parts ++ [')', ';']))))
    (hread : parts.foldlM readPart { table := name.name } = .ok draft) :
    readTable text = .ok draft.finish := by
  obtain ⟨header, hheader, hfound, hrest⟩ := matchStart?_head hname htext
  have hbody : Brackets.round.body? ('(' :: header.rest)
      = some (Text.joined partSeparator parts, [';']) := by
    rw [hrest]
    exact Brackets.body?_of_nested (Brackets.apart_round (by decide))
      (nested_joined quotesApart_brackets (.inr rfl) h.bracketed) [';']
  refine (readTable_eq_ok_iff _ _).mpr ⟨header, _, _, draft, hheader, hbody, ?_, rfl⟩
  rw [h.parts_joined, hfound]
  exact hread

/-! ### The parts -/

/-- The names of the marked columns. -/
def markedNames (columns : List Column) : List Text :=
  columns.flatMap fun column =>
    if column.marks.contains .primaryKey then [column.name.name] else []

theorem foldlM_readPart_columns {columns : List Column} (h : ∀ column ∈ columns, column.WellFormed)
    (draft : Draft) :
    (columns.map Column.text).foldlM readPart draft = .ok { draft with
      columns := draft.columns ++ columns.map Column.plain
      primaryKeys := draft.primaryKeys ++ markedNames columns } := by
  induction columns generalizing draft with
  | nil => simp [markedNames, pure, Except.pure]
  | cons column columns ih =>
      obtain ⟨hcolumn, hcolumns⟩ := List.forall_mem_cons.mp h
      rw [List.map_cons, foldlM_readPart_cons]
      refine ⟨_, readPart_column draft hcolumn, ?_⟩
      rw [ih hcolumns]
      simp [markedNames]

theorem foldlM_readPart_keys {keys : List Key} (h : ∀ key ∈ keys, key.WellFormed) (draft : Draft) :
    (keys.map Key.text).foldlM readPart draft = .ok { draft with
      primaryKeys := draft.primaryKeys ++ keys.flatMap fun key => key.primaryColumns.map Name.name
      foreignKeys := draft.foreignKeys ++ keys.flatMap (Key.references draft.table) } := by
  induction keys generalizing draft with
  | nil => simp [pure, Except.pure]
  | cons key keys ih =>
      obtain ⟨hkey, hkeys⟩ := List.forall_mem_cons.mp h
      have hunnamed : ConstraintWellFormed none := fun name hname => absurd hname (by simp)
      rw [List.map_cons, foldlM_readPart_cons]
      refine ⟨_, readPart_key draft hunnamed hkey, ?_⟩
      rw [ih hkeys]
      simp

namespace Table

variable (table : Table)

/-- The names that belong to the primary key: of marked columns, and listed ones. -/
def keyNames : List Text :=
  markedNames table.columns ++ table.keys.flatMap fun key => key.primaryColumns.map Name.name

/-- The draft that all parts of a table lead to. -/
def draft : Draft :=
  { table := table.name.name, columns := table.columns.map Column.plain
    primaryKeys := table.keyNames, foreignKeys := table.references }

variable {table}

theorem foldlM_readPart_parts (h : table.WellFormed) :
    table.parts.foldlM readPart { table := table.name.name } = .ok table.draft := by
  have hcolumns := foldlM_readPart_columns h.columns { table := table.name.name }
  have hkeys := fun draft => foldlM_readPart_keys h.keys draft
  rw [parts, List.foldlM_append, hcolumns]
  show (table.keys.map Key.text).foldlM readPart _ = _
  rw [hkeys]
  simp [draft, keyNames, references]

/-- Whether a name is among the marked ones says whether the column of that name is marked. -/
theorem any_markedNames (h : table.WellFormed) {column : Column}
    (hcolumn : column ∈ table.columns) :
    (markedNames table.columns).any (fun name => column.name.name.lower = name.lower)
      = column.marks.contains .primaryKey := by
  rw [Bool.eq_iff_iff, List.any_eq_true]
  constructor
  · intro hany
    obtain ⟨name, hname, hlower⟩ := hany
    obtain ⟨other, hother, hmarked⟩ := List.mem_flatMap.mp hname
    by_cases hkey : other.marks.contains .primaryKey = true
    · rw [if_pos hkey, List.mem_singleton] at hmarked
      have hsame : column.name.name.lower = other.name.name.lower := by simpa [hmarked] using hlower
      have hcolumns := List.inj_on_of_nodup_map h.distinct hcolumn hother hsame
      rw [hcolumns]
      exact hkey
    · rw [if_neg hkey] at hmarked
      exact absurd hmarked List.not_mem_nil
  · intro hkey
    refine ⟨column.name.name, List.mem_flatMap.mpr ⟨column, hcolumn, ?_⟩, by simp⟩
    rw [if_pos hkey]
    exact List.mem_singleton_self _

theorem any_keyNames (h : table.WellFormed) {column : Column} (hcolumn : column ∈ table.columns) :
    table.keyNames.any (fun name => column.name.name.lower = name.lower) = table.isKey column := by
  unfold keyNames isKey
  rw [List.any_append, any_markedNames h hcolumn, List.any_flatMap]
  simp only [List.any_map]
  rfl

theorem marked_plain (h : table.WellFormed) {column : Column} (hcolumn : column ∈ table.columns) :
    Er.Entity.marked table.keyNames table.references column.plain = table.column column := by
  have hkey : table.keyNames.any (fun name => column.plain.name.lower = name.lower)
      = table.isKey column := any_keyNames h hcolumn
  have hlast : Er.Entity.lastKey? table.references column.plain = table.reference? column := rfl
  unfold Er.Entity.marked
  rw [hkey, hlast]
  cases hprimary : table.isKey column <;> cases hreference : table.reference? column <;>
    simp [Table.column, hprimary, hreference, Column.plain, Er.Column.markPrimaryKey,
      Er.Column.markForeignKey]

theorem distinctColumns_draft (h : table.WellFormed) :
    Er.Entity.DistinctColumns { name := table.name.name, columns := table.draft.columns } := by
  have hdistinct := h.distinct
  unfold Er.Entity.DistinctColumns draft
  simpa [List.map_map, Function.comp_def, Column.plain] using hdistinct

/-- What the parts of a written table add up to is the table. -/
theorem finish_draft (h : table.WellFormed) :
    table.draft.finish = { entity := table.entity, foreignKeys := table.references } := by
  have hcolumns := Er.Entity.columns_applyKeys (distinctColumns_draft h) table.keyNames
    table.references
  have hmarked : table.draft.columns.map (Er.Entity.marked table.keyNames table.references)
      = table.columns.map table.column := by
    unfold draft
    rw [List.map_map]
    exact List.map_congr_left fun column hcolumn => marked_plain h hcolumn
  have hentity : Er.Entity.applyKeys { name := table.name.name, columns := table.draft.columns }
      table.keyNames table.references = table.entity := by
    rw [Er.Entity.applyKeys_eq, hcolumns]
    show Er.Entity.mk table.name.name _ 0 0 = _
    rw [hmarked]
    rfl
  show Definition.mk (Er.Entity.applyKeys _ _ _) table.references = _
  exact congrArg (Definition.mk · table.references) hentity

end Table

theorem Table.partsWritten {table : Table} (h : table.WellFormed) : PartsWritten table.parts :=
  .of_uncut (Table.solid_part h) fun hquotes => Table.uncut_part hquotes h

/-- **A written table is read strictly, as the table it was written from.** -/
theorem readTable_body {table : Table} (h : table.WellFormed) :
    readTable (table.body ++ [';'])
      = .ok { entity := table.entity, foreignKeys := table.references } := by
  have hbody : table.body ++ [';'] = _ := create_append table.name _ [';']
  rw [readTable_of_parts h.name (Table.partsWritten h) hbody (Table.foldlM_readPart_parts h),
    Table.finish_draft h]

end Diagrams.Schema.Written
