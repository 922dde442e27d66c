/-
The places where the keys of a table may be written.

A declaration says which keys a table has, and a placing where they are written: with the columns,
behind the columns, or in changes right after the table.  Foreign keys can stand with the columns
only if each has one column and refers to one, and if their columns come in the order of the keys;
then the reading meets the keys in this order in all three places.  `diagram_read_spelled` says that
the diagram of a script does not depend on the placing.
-/
import Diagrams.Proofs.Schema.KeyedTable

namespace Diagrams.Schema.Written

/-- A foreign key. -/
structure Link where
  /-- Its columns. -/
  columns : List Name
  /-- The table that it refers to. -/
  target : Name
  /-- The columns that it refers to. -/
  targetColumns : List Name

namespace Link

variable (link : Link)

/-- The foreign key as a key of its own. -/
def key : Key := .foreign link.columns link.target link.targetColumns

/-- The foreign key as a clause for its column.  There is none for a key with more columns. -/
def clauses : List (Name × Clause) :=
  match link.columns, link.targetColumns with
  | [column], [other] => [(column, .reference link.target other)]
  | _, _ => []

end Link

/-- The column with one more clause. -/
def LinkedColumn.adding (column : LinkedColumn) (clause : Clause) : LinkedColumn :=
  { column with clauses := column.clauses ++ [clause] }

/-- Columns with clauses for some of them.  Each clause goes to the first column of its name, from
the column of the clause before it on. -/
def attach : List (Name × Clause) → List LinkedColumn → List LinkedColumn
  | _, [] => []
  | [], columns => columns
  | (name, clause) :: items, column :: columns =>
    if column.name.name.lower = name.name.lower then column.adding clause :: attach items columns
    else column :: attach ((name, clause) :: items) columns

/-- A table and its keys, wherever they are written. -/
structure Declaration where
  /-- Its name. -/
  name : Name
  /-- Its columns, in order. -/
  columns : List Column := []
  /-- The columns of its primary key, if it has one. -/
  primary : Option (List Name) := none
  /-- Its foreign keys, in order. -/
  links : List Link := []

/-- Where a key may be written. -/
inductive KeyPlace
  /-- With its column. -/
  | column
  /-- As a part of the table, behind the columns. -/
  | part
  /-- In a change right after the table. -/
  | change
  deriving DecidableEq, Repr

/-- Where the keys of a table are written. -/
structure Placing where
  /-- The place of its primary key. -/
  primary : KeyPlace
  /-- The place of its foreign keys. -/
  foreign : KeyPlace
  /-- Whether the foreign keys come first if all keys stand in one place. -/
  foreignFirst : Bool := false

namespace Declaration

variable (declared : Declaration) (placing : Placing)

/-- The primary key as a key of its own. -/
def primaryKeys : List Key := declared.primary.toList.map .primary

/-- The primary key as marks for its columns. -/
def primaryMarks : List (Name × Clause) :=
  declared.primary.toList.flatten.map (·, .mark .primaryKey)

/-- The foreign keys as keys of their own. -/
def foreignKeys : List Key := declared.links.map Link.key

/-- The foreign keys as clauses for their columns. -/
def foreignClauses : List (Name × Clause) := declared.links.flatMap Link.clauses

/-- The marks that are written with the columns. -/
def marksWith : List (Name × Clause) :=
  if placing.primary = .column then declared.primaryMarks else []

/-- The clauses that are written with the columns. -/
def clausesWith : List (Name × Clause) :=
  if placing.foreign = .column then declared.foreignClauses else []

/-- The columns with the keys that are written with them. -/
def columnsWith : List LinkedColumn :=
  let columns := declared.columns.map Column.linked
  if placing.foreignFirst then
    attach (declared.marksWith placing) (attach (declared.clausesWith placing) columns)
  else attach (declared.clausesWith placing) (attach (declared.marksWith placing) columns)

/-- The keys of their own that are written in a place. -/
def keysAt (place : KeyPlace) : List Key :=
  let primary := if placing.primary = place then declared.primaryKeys else []
  let foreign := if placing.foreign = place then declared.foreignKeys else []
  if placing.foreignFirst then foreign ++ primary else primary ++ foreign

/-- The table with its keys in their places. -/
def spelled : KeyedTable where
  name := declared.name
  columns := declared.columnsWith placing
  keys := declared.keysAt placing .part
  added := declared.keysAt placing .change

/-- Names that stand for columns, in the order of the columns. -/
def InOrder (names : List Name) : Prop :=
  (names.map fun name => name.name.lower).Sublist
    (declared.columns.map fun column => column.name.name.lower)

instance (names : List Name) : Decidable (declared.InOrder names) :=
  inferInstanceAs (Decidable (List.Sublist _ _))

/-- Keys can be written with the columns if each is about one column, and these come in order. -/
structure Allows : Prop where
  primary : placing.primary = .column → declared.InOrder declared.primary.toList.flatten
  single : placing.foreign = .column → ∀ link ∈ declared.links, link.clauses ≠ []
  foreign : placing.foreign = .column → declared.InOrder (declared.links.flatMap Link.columns)

instance : Decidable (declared.Allows placing) :=
  decidable_of_iff
    ((placing.primary = .column → declared.InOrder declared.primary.toList.flatten) ∧
      (placing.foreign = .column → ∀ link ∈ declared.links, link.clauses ≠ []) ∧
      (placing.foreign = .column → declared.InOrder (declared.links.flatMap Link.columns)))
    ⟨fun h => ⟨h.1, h.2.1, h.2.2⟩, fun h => ⟨h.primary, h.single, h.foreign⟩⟩

/-- A declared table has columns and keys that can be written. -/
structure WellFormed : Prop where
  name : declared.name.IsPlain
  columns : ∀ column ∈ declared.columns, column.WellFormed
  primary : ∀ names ∈ declared.primary.toList, NamesWellFormed names
  links : ∀ link ∈ declared.links, link.key.WellFormed

instance : Decidable declared.WellFormed :=
  decidable_of_iff (declared.name.IsPlain ∧ (∀ column ∈ declared.columns, column.WellFormed) ∧
      (∀ names ∈ declared.primary.toList, NamesWellFormed names) ∧
      ∀ link ∈ declared.links, link.key.WellFormed)
    ⟨fun h => ⟨h.1, h.2.1, h.2.2.1, h.2.2.2⟩, fun h => ⟨h.name, h.columns, h.primary, h.links⟩⟩

end Declaration

/-! ### Keys that say the same -/

/-- The names in the primary keys among some keys, in lower case. -/
def keyNames (keys : List Key) : List Text := (primaryNames keys).map Text.lower

/-- The foreign keys among some keys of a table, with their columns in lower case. -/
def keyReferences (table : Text) (keys : List Key) : List Er.ForeignKey :=
  (keys.flatMap (Key.references table)).map Er.ForeignKey.lowered

section

variable (table : Text) (keys others : List Key)

@[simp] theorem keyNames_nil : keyNames [] = [] := rfl

@[simp] theorem keyReferences_nil : keyReferences table [] = [] := rfl

@[simp] theorem keyNames_append : keyNames (keys ++ others) = keyNames keys ++ keyNames others := by
  simp [keyNames, primaryNames]

@[simp] theorem keyReferences_append :
    keyReferences table (keys ++ others)
      = keyReferences table keys ++ keyReferences table others := by
  simp [keyReferences]

theorem keyReferences_flatMap {α : Type} (items : List α) (keysOf : α → List Key) :
    keyReferences table (items.flatMap keysOf)
      = items.flatMap fun item => keyReferences table (keysOf item) := by
  simp [keyReferences, List.flatMap_assoc, List.map_flatMap]

end

/-- Tables with the same columns and keys agree, wherever the keys stand. -/
theorem KeyedTable.agrees_of_keys {table other : KeyedTable} (hname : table.name = other.name)
    (hcolumns : table.columns.map LinkedColumn.plain = other.columns.map LinkedColumn.plain)
    (hnames : ∀ name, name ∈ keyNames table.allKeys ↔ name ∈ keyNames other.allKeys)
    (hreferences : keyReferences table.name.name table.allKeys
      = keyReferences table.name.name other.allKeys) : table.Agrees other := by
  have hlowered : table.references.map Er.ForeignKey.lowered
      = other.references.map Er.ForeignKey.lowered := by
    rw [hname] at hreferences
    unfold references
    rw [hname]
    exact hreferences
  refine ⟨?_, hlowered⟩
  unfold entity
  rw [hname, hcolumns, Er.Entity.applyKeys_of_lowered _ _ hlowered]
  refine Er.Entity.applyKeys_congr _ _ fun place => ?_
  have hfind : ∀ {keys others : List Key}, (∀ name ∈ keyNames keys, name ∈ keyNames others) →
      ∀ made : Er.Entity, (∃ name ∈ primaryNames keys, made.columnIndex? name = some place) →
        ∃ name ∈ primaryNames others, made.columnIndex? name = some place := by
    rintro keys others hmem made ⟨name, hname, hplace⟩
    obtain ⟨other, hother, hlower⟩ := List.mem_map.mp (hmem _ (List.mem_map_of_mem hname))
    exact ⟨other, hother, (made.columnIndex?_of_lower hlower).trans hplace⟩
  exact ⟨hfind (fun name => (hnames name).mp) _, hfind (fun name => (hnames name).mpr) _⟩

/-! ### Keys that are written with columns -/

/-- The foreign key of a column that refers to another one, with the column in lower case. -/
def referenceOf (table column : Text) (reference : Name × Name) : Er.ForeignKey :=
  { sourceTable := table, column, targetTable := reference.1.name
    targetColumn := some reference.2.name }

namespace LinkedColumn

variable (column : LinkedColumn) (clause : Clause)

@[simp] theorem isMarked_adding (mark : Mark) :
    (column.adding clause).isMarked mark = (column.isMarked mark || clause.isMark mark) := by
  simp [isMarked, adding]

@[simp] theorem reference?_adding :
    (column.adding clause).reference? = column.reference?.or clause.reference? := by
  simp [reference?, adding]

theorem plain_adding (h : clause.isMark .notNull = false) :
    (column.adding clause).plain = column.plain := by
  unfold plain
  rw [isMarked_adding, h, Bool.or_false]
  rfl

theorem mem_keyNames_keys (name : Text) : name ∈ keyNames column.keys ↔
    column.isMarked .primaryKey = true ∧ column.name.name.lower = name := by
  unfold keyNames
  rw [column.primaryNames_keys]
  cases column.isMarked .primaryKey <;> simp [eq_comm]

theorem keyReferences_keys (table : Text) : keyReferences table column.keys
    = column.reference?.toList.map (referenceOf table column.name.name.lower) := by
  unfold keyReferences
  rw [column.references_keys]
  cases column.reference? <;> rfl

end LinkedColumn

section

variable {items : List (Name × Clause)} {columns : List LinkedColumn}

/-- Clauses for columns that come in the order of the columns. -/
def Attachable (items : List (Name × Clause)) (columns : List LinkedColumn) : Prop :=
  (items.map fun item => item.1.name.lower).Sublist
    (columns.map fun column => column.name.name.lower)

theorem map_name_attach (items : List (Name × Clause)) (columns : List LinkedColumn) :
    (attach items columns).map LinkedColumn.name = columns.map LinkedColumn.name := by
  fun_induction attach items columns with
  | case1 => rfl
  | case2 => rfl
  | case3 name clause items column columns _ ih => exact congrArg (column.name :: ·) ih
  | case4 name clause items column columns _ ih => exact congrArg (column.name :: ·) ih

theorem map_plain_attach (h : ∀ item ∈ items, item.2.isMark .notNull = false) :
    (attach items columns).map LinkedColumn.plain = columns.map LinkedColumn.plain := by
  fun_induction attach items columns with
  | case1 => rfl
  | case2 => rfl
  | case3 name clause items column columns _ ih =>
      obtain ⟨hclause, hitems⟩ := List.forall_mem_cons.mp h
      rw [List.map_cons, List.map_cons, ih hitems, column.plain_adding clause hclause]
  | case4 name clause items column columns _ ih => exact congrArg (column.plain :: ·) (ih h)

theorem wellFormed_attach (h : ∀ item ∈ items, item.2.WellFormed)
    (hcolumns : ∀ column ∈ columns, column.WellFormed) :
    ∀ column ∈ attach items columns, column.WellFormed := by
  fun_induction attach items columns with
  | case1 => exact hcolumns
  | case2 => exact hcolumns
  | case3 name clause items column columns _ ih =>
      obtain ⟨hclause, hitems⟩ := List.forall_mem_cons.mp h
      obtain ⟨hcolumn, hcolumns⟩ := List.forall_mem_cons.mp hcolumns
      refine List.forall_mem_cons.mpr ⟨?_, ih hitems hcolumns⟩
      refine ⟨hcolumn.name, hcolumn.noConstraint, hcolumn.type, ?_⟩
      exact List.forall_mem_append.mpr ⟨hcolumn.clauses, List.forall_mem_singleton.mpr hclause⟩
  | case4 name clause items column columns _ ih =>
      obtain ⟨hcolumn, hcolumns⟩ := List.forall_mem_cons.mp hcolumns
      exact List.forall_mem_cons.mpr ⟨hcolumn, ih h hcolumns⟩

/-- What is left to attach behind a column. -/
theorem Attachable.of_cons {name : Name} {clause : Clause} {column : LinkedColumn}
    (h : Attachable ((name, clause) :: items) (column :: columns)) :
    Attachable items columns ∧ (column.name.name.lower ≠ name.name.lower →
      Attachable ((name, clause) :: items) columns) := by
  unfold Attachable at h ⊢
  rw [List.map_cons, List.map_cons] at h
  refine ⟨List.Sublist.of_cons_cons h, fun hne => ?_⟩
  exact List.Sublist.of_cons_of_ne (Ne.symm hne) h

/-- Clauses mark the columns that they are attached to. -/
theorem mem_keyNames_attach (h : Attachable items columns) (name : Text) :
    name ∈ keyNames ((attach items columns).flatMap LinkedColumn.keys) ↔
      name ∈ keyNames (columns.flatMap LinkedColumn.keys) ∨
        ∃ item ∈ items, item.2.isMark .primaryKey = true ∧ item.1.name.lower = name := by
  fun_induction attach items columns with
  | case1 items =>
      obtain rfl : items = [] := by simpa [Attachable] using h
      simp
  | case2 => simp
  | case3 target clause items column columns hname ih =>
      have hitems := ih h.of_cons.1
      simp only [List.flatMap_cons, keyNames_append, List.mem_append, hitems,
        LinkedColumn.mem_keyNames_keys, LinkedColumn.isMarked_adding, List.exists_mem_cons_iff]
      have hadding : (column.adding clause).name = column.name := rfl
      rw [hadding, hname, Bool.or_eq_true]
      tauto
  | case4 target clause items column columns hname ih =>
      have hitems := ih (h.of_cons.2 hname)
      simp only [List.flatMap_cons, keyNames_append, List.mem_append, hitems]
      exact or_assoc.symm

/-- Marks refer to nothing. -/
theorem keyReferences_attach_of_marks (table : Text)
    (h : ∀ item ∈ items, item.2.reference? = none) :
    keyReferences table ((attach items columns).flatMap LinkedColumn.keys)
      = keyReferences table (columns.flatMap LinkedColumn.keys) := by
  fun_induction attach items columns with
  | case1 => rfl
  | case2 => rfl
  | case3 name clause items column columns _ ih =>
      obtain ⟨hclause, hitems⟩ := List.forall_mem_cons.mp h
      simp only [List.flatMap_cons, keyReferences_append, ih hitems,
        LinkedColumn.keyReferences_keys, LinkedColumn.reference?_adding, hclause, Option.or_none]
      rfl
  | case4 name clause items column columns _ ih =>
      simp only [List.flatMap_cons, keyReferences_append, ih h]

/-- Columns that refer to nothing refer to what clauses say that are attached to them. -/
theorem keyReferences_attach (table : Text) (h : Attachable items columns)
    (hcolumns : ∀ column ∈ columns, column.reference? = none) :
    keyReferences table ((attach items columns).flatMap LinkedColumn.keys)
      = items.flatMap fun item =>
          item.2.reference?.toList.map (referenceOf table item.1.name.lower) := by
  fun_induction attach items columns with
  | case1 items =>
      obtain rfl : items = [] := by simpa [Attachable] using h
      rfl
  | case2 columns =>
      rw [keyReferences_flatMap, List.flatMap_nil, List.flatMap_eq_nil_iff]
      intro column hcolumn
      rw [column.keyReferences_keys, hcolumns column hcolumn]
      rfl
  | case3 name clause items column columns hname ih =>
      obtain ⟨hcolumn, hothers⟩ := List.forall_mem_cons.mp hcolumns
      simp only [List.flatMap_cons, keyReferences_append, ih h.of_cons.1 hothers,
        LinkedColumn.keyReferences_keys, LinkedColumn.reference?_adding, hcolumn, Option.none_or]
      rw [← hname]
      rfl
  | case4 name clause items column columns hname ih =>
      obtain ⟨hcolumn, hothers⟩ := List.forall_mem_cons.mp hcolumns
      simp only [List.flatMap_cons, keyReferences_append, ih (h.of_cons.2 hname) hothers,
        LinkedColumn.keyReferences_keys, hcolumn]
      rfl

theorem reference?_attach (h : ∀ item ∈ items, item.2.reference? = none)
    (hcolumns : ∀ column ∈ columns, column.reference? = none) :
    ∀ column ∈ attach items columns, column.reference? = none := by
  fun_induction attach items columns with
  | case1 => exact hcolumns
  | case2 => exact hcolumns
  | case3 name clause items column columns _ ih =>
      obtain ⟨hclause, hitems⟩ := List.forall_mem_cons.mp h
      obtain ⟨hcolumn, hothers⟩ := List.forall_mem_cons.mp hcolumns
      refine List.forall_mem_cons.mpr ⟨?_, ih hitems hothers⟩
      rw [LinkedColumn.reference?_adding, hcolumn, hclause, Option.or_none]
  | case4 name clause items column columns _ ih =>
      obtain ⟨hcolumn, hothers⟩ := List.forall_mem_cons.mp hcolumns
      exact List.forall_mem_cons.mpr ⟨hcolumn, ih h hothers⟩

/-- Where clauses may go does not depend on the clauses that columns have. -/
theorem Attachable.attach (h : Attachable items columns) (others : List (Name × Clause)) :
    Attachable items (attach others columns) := by
  have hnames := congrArg (List.map fun name : Name => name.name.lower)
    (map_name_attach others columns)
  rw [List.map_map, List.map_map] at hnames
  unfold Attachable at h ⊢
  exact hnames ▸ h

end

/-! ### The keys of a declaration -/

namespace Declaration

variable {declared : Declaration} {placing : Placing}

theorem mem_keyNames_primaryKeys (name : Text) : name ∈ keyNames declared.primaryKeys ↔
    ∃ item ∈ declared.primaryMarks,
      item.2.isMark .primaryKey = true ∧ item.1.name.lower = name := by
  unfold primaryKeys primaryMarks
  cases declared.primary with
  | none => simp
  | some names => simp [keyNames, primaryNames, Key.primaryColumns, Clause.isMark]

theorem keyNames_foreignKeys (declared : Declaration) : keyNames declared.foreignKeys = [] := by
  unfold keyNames foreignKeys primaryNames
  simp [Key.primaryColumns, Link.key]

theorem keyReferences_primaryKeys (declared : Declaration) (table : Text) :
    keyReferences table declared.primaryKeys = [] := by
  unfold primaryKeys
  cases declared.primary <;> rfl

/-- A foreign key over one column says the same as its clause. -/
theorem keyReferences_link {link : Link} (h : link.clauses ≠ []) (table : Text) :
    keyReferences table [link.key] = link.clauses.flatMap fun item =>
      item.2.reference?.toList.map (referenceOf table item.1.name.lower) := by
  unfold Link.clauses at h ⊢
  split at h
  · rename_i hcolumns htargetColumns
    simp only [hcolumns, htargetColumns, Link.key]
    rfl
  · exact absurd rfl h

theorem keyReferences_foreignKeys (h : ∀ link ∈ declared.links, link.clauses ≠ []) (table : Text) :
    keyReferences table declared.foreignKeys = declared.foreignClauses.flatMap fun item =>
      item.2.reference?.toList.map (referenceOf table item.1.name.lower) := by
  have hkeys : declared.foreignKeys = declared.links.flatMap fun link => [link.key] :=
    List.map_eq_flatMap
  unfold foreignClauses
  rw [hkeys, keyReferences_flatMap, List.flatMap_assoc]
  exact List.flatMap_congr fun link hlink => keyReferences_link (h link hlink) table

/-! ### Columns with their keys -/

theorem eq_of_mem_marksWith {item : Name × Clause} (h : item ∈ declared.marksWith placing) :
    item.2 = .mark .primaryKey := by
  unfold marksWith at h
  split at h
  · obtain ⟨name, -, rfl⟩ := List.mem_map.mp h
    rfl
  · exact absurd h List.not_mem_nil

theorem exists_of_mem_clausesWith {item : Name × Clause} (h : item ∈ declared.clausesWith placing) :
    ∃ link ∈ declared.links, ∃ other, item.2 = .reference link.target other ∧
      link.targetColumns = [other] := by
  unfold clausesWith at h
  split at h
  · obtain ⟨link, hlink, hitem⟩ := List.mem_flatMap.mp h
    unfold Link.clauses at hitem
    split at hitem
    · rename_i htargetColumns
      obtain rfl := List.mem_singleton.mp hitem
      exact ⟨link, hlink, _, rfl, htargetColumns⟩
    · exact absurd hitem List.not_mem_nil
  · exact absurd h List.not_mem_nil

theorem map_lower_linked (columns : List Column) :
    (columns.map Column.linked).map (fun column => column.name.name.lower)
      = columns.map fun column => column.name.name.lower := by
  rw [List.map_map]
  rfl

theorem attachable_marksWith (h : declared.Allows placing) :
    Attachable (declared.marksWith placing) (declared.columns.map Column.linked) := by
  unfold Attachable marksWith
  rw [map_lower_linked]
  split
  · rename_i hplace
    have hnames : declared.primaryMarks.map (fun item => item.1.name.lower)
        = declared.primary.toList.flatten.map fun name => name.name.lower := by
      unfold primaryMarks
      rw [List.map_map]
      rfl
    rw [hnames]
    exact h.primary hplace
  · exact List.nil_sublist _

theorem attachable_clausesWith (h : declared.Allows placing) :
    Attachable (declared.clausesWith placing) (declared.columns.map Column.linked) := by
  unfold Attachable clausesWith
  rw [map_lower_linked]
  split
  · rename_i hplace
    have hlink : ∀ link ∈ declared.links, link.clauses.map (fun item => item.1.name.lower)
        = link.columns.map fun name => name.name.lower := by
      intro link hlink
      have hsingle := h.single hplace link hlink
      unfold Link.clauses at hsingle ⊢
      split at hsingle
      · rename_i hcolumns _
        rw [hcolumns]
        rfl
      · exact absurd rfl hsingle
    have hnames : declared.foreignClauses.map (fun item => item.1.name.lower)
        = (declared.links.flatMap Link.columns).map fun name => name.name.lower := by
      unfold foreignClauses
      rw [List.map_flatMap, List.map_flatMap]
      exact List.flatMap_congr hlink
    rw [hnames]
    exact h.foreign hplace
  · exact List.nil_sublist _

theorem reference?_linked {column : LinkedColumn}
    (h : column ∈ declared.columns.map Column.linked) :
    column.reference? = none := by
  obtain ⟨column, -, rfl⟩ := List.mem_map.mp h
  exact column.reference?_linked

theorem map_plain_columnsWith (declared : Declaration) (placing : Placing) :
    (declared.columnsWith placing).map LinkedColumn.plain = declared.columns.map Column.plain := by
  have hmarks : ∀ item ∈ declared.marksWith placing, item.2.isMark .notNull = false := by
    intro item hitem
    rw [eq_of_mem_marksWith hitem]
    rfl
  have hclauses : ∀ item ∈ declared.clausesWith placing, item.2.isMark .notNull = false := by
    intro item hitem
    obtain ⟨link, -, other, hclause, -⟩ := exists_of_mem_clausesWith hitem
    rw [hclause]
    rfl
  have hcolumns : (declared.columns.map Column.linked).map LinkedColumn.plain
      = declared.columns.map Column.plain := by
    rw [List.map_map]
    exact List.map_congr_left fun column _ => column.plain_linked
  unfold columnsWith
  split
  · exact (map_plain_attach hmarks).trans ((map_plain_attach hclauses).trans hcolumns)
  · exact (map_plain_attach hclauses).trans ((map_plain_attach hmarks).trans hcolumns)

theorem wellFormed_columnsWith (h : declared.WellFormed) (placing : Placing) :
    ∀ column ∈ declared.columnsWith placing, column.WellFormed := by
  have hmarks : ∀ item ∈ declared.marksWith placing, item.2.WellFormed := by
    intro item hitem
    rw [eq_of_mem_marksWith hitem]
    trivial
  have hclauses : ∀ item ∈ declared.clausesWith placing, item.2.WellFormed := by
    intro item hitem
    obtain ⟨link, hlink, other, hclause, htargetColumns⟩ := exists_of_mem_clausesWith hitem
    obtain ⟨-, htarget, hothers⟩ := h.links link hlink
    rw [hclause]
    exact ⟨htarget, hothers.names other (by simp [htargetColumns])⟩
  have hcolumns : ∀ column ∈ declared.columns.map Column.linked, column.WellFormed := by
    intro linked hlinked
    obtain ⟨column, hcolumn, rfl⟩ := List.mem_map.mp hlinked
    exact (h.columns column hcolumn).linked
  unfold columnsWith
  split
  · exact wellFormed_attach hmarks (wellFormed_attach hclauses hcolumns)
  · exact wellFormed_attach hclauses (wellFormed_attach hmarks hcolumns)

/-- The columns are marked as before, and by the primary key if it is written with them. -/
theorem mem_keyNames_columnsWith (h : declared.Allows placing) (name : Text) :
    name ∈ keyNames ((declared.columnsWith placing).flatMap LinkedColumn.keys) ↔
      name ∈ keyNames ((declared.columns.map Column.linked).flatMap LinkedColumn.keys) ∨
        (placing.primary = .column ∧ name ∈ keyNames declared.primaryKeys) := by
  have hmarks : (∃ item ∈ declared.marksWith placing,
      item.2.isMark .primaryKey = true ∧ item.1.name.lower = name) ↔
        placing.primary = .column ∧ name ∈ keyNames declared.primaryKeys := by
    unfold marksWith
    rw [mem_keyNames_primaryKeys]
    split <;> simp [*]
  have hclauses : ¬ ∃ item ∈ declared.clausesWith placing,
      item.2.isMark .primaryKey = true ∧ item.1.name.lower = name := by
    rintro ⟨item, hitem, hmark, -⟩
    obtain ⟨link, -, other, hclause, -⟩ := exists_of_mem_clausesWith hitem
    rw [hclause] at hmark
    exact Bool.noConfusion hmark
  have hattachable := attachable_marksWith h
  have hattachable' := attachable_clausesWith h
  unfold columnsWith
  split
  · rw [mem_keyNames_attach (hattachable.attach _), mem_keyNames_attach hattachable', hmarks,
      or_iff_left hclauses]
  · rw [mem_keyNames_attach (hattachable'.attach _), mem_keyNames_attach hattachable, hmarks,
      or_iff_left hclauses]

/-- The columns refer to what the foreign keys say if these are written with them. -/
theorem keyReferences_columnsWith (h : declared.Allows placing) (table : Text) :
    keyReferences table ((declared.columnsWith placing).flatMap LinkedColumn.keys)
      = if placing.foreign = .column then keyReferences table declared.foreignKeys else [] := by
  have hmarks : ∀ item ∈ declared.marksWith placing, item.2.reference? = none := by
    intro item hitem
    rw [eq_of_mem_marksWith hitem]
    rfl
  have hclauses : ((declared.clausesWith placing).flatMap fun item =>
      item.2.reference?.toList.map (referenceOf table item.1.name.lower))
        = if placing.foreign = .column then keyReferences table declared.foreignKeys else [] := by
    unfold clausesWith
    split
    · rename_i hplace
      exact (keyReferences_foreignKeys (h.single hplace) table).symm
    · rfl
  have hattachable := attachable_clausesWith h
  have hnone : ∀ column ∈ declared.columns.map Column.linked, column.reference? = none :=
    fun column hcolumn => reference?_linked hcolumn
  unfold columnsWith
  split
  · rw [keyReferences_attach_of_marks table hmarks, keyReferences_attach table hattachable hnone,
      hclauses]
  · rw [keyReferences_attach table (hattachable.attach _)
      (reference?_attach hmarks hnone), hclauses]

/-! ### All keys -/

/-- No other keys are written in a place. -/
theorem mem_or_mem_of_mem_keysAt {place : KeyPlace} {key : Key}
    (h : key ∈ declared.keysAt placing place) :
    key ∈ declared.primaryKeys ∨ key ∈ declared.foreignKeys := by
  have hkeys : ∀ (here : Prop) [Decidable here] (keys : List Key),
      key ∈ (if here then keys else []) → key ∈ keys := by
    intro here _ keys hkey
    by_cases hhere : here
    · rwa [if_pos hhere] at hkey
    · rw [if_neg hhere] at hkey
      exact absurd hkey List.not_mem_nil
  unfold keysAt at h
  dsimp only at h
  by_cases hfirst : placing.foreignFirst = true
  · rw [if_pos hfirst] at h
    exact (List.mem_append.mp h).symm.imp (hkeys _ _) (hkeys _ _)
  · rw [if_neg hfirst] at h
    exact (List.mem_append.mp h).imp (hkeys _ _) (hkeys _ _)

theorem mem_keyNames_keysAt (place : KeyPlace) (name : Text) :
    name ∈ keyNames (declared.keysAt placing place) ↔
      placing.primary = place ∧ name ∈ keyNames declared.primaryKeys := by
  have hforeign := declared.keyNames_foreignKeys
  unfold keysAt
  split <;> split <;> split <;> simp [*]

theorem keyReferences_keysAt (place : KeyPlace) (table : Text) :
    keyReferences table (declared.keysAt placing place)
      = if placing.foreign = place then keyReferences table declared.foreignKeys else [] := by
  have hprimary := declared.keyReferences_primaryKeys table
  unfold keysAt
  split <;> split <;> split <;> simp [*]

/-- All keys together mark what the columns and the primary key mark, wherever they stand. -/
theorem mem_keyNames_spelled (h : declared.Allows placing) (name : Text) :
    name ∈ keyNames (declared.spelled placing).allKeys ↔
      name ∈ keyNames ((declared.columns.map Column.linked).flatMap LinkedColumn.keys) ∨
        name ∈ keyNames declared.primaryKeys := by
  have hcolumns := mem_keyNames_columnsWith h name
  have hkeys := fun place => @mem_keyNames_keysAt declared placing place name
  unfold spelled KeyedTable.allKeys KeyedTable.declaredKeys
  dsimp only
  rw [keyNames_append, keyNames_append, List.mem_append, List.mem_append, hcolumns, hkeys, hkeys]
  cases placing.primary <;> simp

/-- All keys together refer to what the foreign keys say, wherever they stand. -/
theorem keyReferences_spelled (h : declared.Allows placing) (table : Text) :
    keyReferences table (declared.spelled placing).allKeys
      = keyReferences table declared.foreignKeys := by
  have hcolumns := keyReferences_columnsWith h table
  have hkeys := fun place => @keyReferences_keysAt declared placing place table
  unfold spelled KeyedTable.allKeys KeyedTable.declaredKeys
  dsimp only
  rw [keyReferences_append, keyReferences_append, hcolumns, hkeys, hkeys]
  cases placing.foreign <;> simp

theorem wellFormed_spelled (h : declared.WellFormed) (placing : Placing) :
    (declared.spelled placing).WellFormed := by
  have hprimary : ∀ key ∈ declared.primaryKeys, key.WellFormed := by
    intro key hkey
    obtain ⟨names, hnames, rfl⟩ := List.mem_map.mp hkey
    exact h.primary names hnames
  have hforeign : ∀ key ∈ declared.foreignKeys, key.WellFormed := by
    intro key hkey
    obtain ⟨link, hlink, rfl⟩ := List.mem_map.mp hkey
    exact h.links link hlink
  have hkeys : ∀ place, ∀ key ∈ declared.keysAt placing place, key.WellFormed :=
    fun place key hkey => (mem_or_mem_of_mem_keysAt hkey).elim (hprimary key) (hforeign key)
  exact ⟨h.name, wellFormed_columnsWith h placing, hkeys .part, hkeys .change⟩

/-- Two spellings of a declaration agree. -/
theorem agrees_spelled {other : Placing} (h : declared.Allows placing)
    (hother : declared.Allows other) :
    (declared.spelled placing).Agrees (declared.spelled other) := by
  refine KeyedTable.agrees_of_keys rfl ?_ (fun name => ?_) ?_
  · exact (declared.map_plain_columnsWith placing).trans (declared.map_plain_columnsWith other).symm
  · rw [mem_keyNames_spelled h, mem_keyNames_spelled hother]
  · rw [keyReferences_spelled h, keyReferences_spelled hother]

end Declaration

/-- **The spellings of a key agree**: the diagram of a script, with its relationships in order, does
not depend on where the primary key and the foreign keys of a table are written. -/
theorem diagram_read_spelled {before after : List KeyedTable} {declared : Declaration}
    {placing other : Placing} (hbefore : ∀ table ∈ before, table.WellFormed)
    (hafter : ∀ table ∈ after, table.WellFormed) (hdeclared : declared.WellFormed)
    (hplacing : declared.Allows placing) (hother : declared.Allows other) (title : Text)
    (grid : Option Er.Grid) :
    (read (keyedScript (before ++ declared.spelled placing :: after)) title grid).diagram
      = (read (keyedScript (before ++ declared.spelled other :: after)) title grid).diagram :=
  diagram_read_of_agrees (Declaration.agrees_spelled hplacing hother) hbefore hafter
    (Declaration.wellFormed_spelled hdeclared placing)
      (Declaration.wellFormed_spelled hdeclared other)
    title grid

/-- Customers, whose primary key is added to them. -/
def customers : KeyedTable where
  name := { name := "customers".toList, quotes := .doubleQuotes }
  columns := [{ name := { name := "id".toList }, type := { word := "INT".toList } }]
  added := [.primary [{ name := "id".toList }]]

/-- Orders, each with a number of its own and placed by a customer. -/
def orders : Declaration where
  name := { name := "orders".toList }
  columns := [
    { name := { name := "number".toList }
      type := { word := "DECIMAL".toList, lengths := ["10".toList, "2".toList] } },
    { name := { name := "customer".toList, quotes := .brackets }, type := { word := "INT".toList }
      marks := [.notNull] }]
  primary := some [{ name := "Number".toList }]
  links := [
    { columns := [{ name := "CUSTOMER".toList }], target := { name := "Customers".toList }
      targetColumns := [{ name := "id".toList }] }]

example : (orders.spelled { primary := .column, foreign := .column }).bodies.map Text.string =
    ["CREATE TABLE orders (number DECIMAL(10,2) PRIMARY KEY, " ++
      "[customer] INT NOT NULL REFERENCES Customers(id))"] := by decide

example : (orders.spelled { primary := .part, foreign := .change }).bodies.map Text.string =
    ["CREATE TABLE orders (number DECIMAL(10,2), [customer] INT NOT NULL, PRIMARY KEY (Number))",
      "ALTER TABLE orders ADD FOREIGN KEY (CUSTOMER) REFERENCES Customers(id)"] := by decide

theorem diagram_read_spelled_orders :
    let inline : Placing := { primary := .column, foreign := .column }
    let added : Placing := { primary := .change, foreign := .change, foreignFirst := true }
    let diagram := fun placing =>
      (read (keyedScript [customers, orders.spelled placing]) "Shop".toList none).diagram
    customers.WellFormed ∧ orders.WellFormed ∧ orders.Allows inline ∧ orders.Allows added ∧
      diagram inline = diagram added ∧ (diagram added).shownEdges = [
        { source := 1, target := 0
          label :=
            { name := "orders_customers".toList, cardinality := .manyToOne
              sourceColumn := some 1, targetColumn := some 0 } }] := by
  have hcustomers : ∀ table ∈ [customers], table.WellFormed := by decide
  have hafter : ∀ table ∈ ([] : List KeyedTable), table.WellFormed := by decide
  have hall : ∀ table ∈ [customers, orders.spelled
      { primary := .change, foreign := .change, foreignFirst := true }],
        table.WellFormed := by decide
  refine ⟨by decide, by decide, by decide, by decide, ?_, ?_⟩
  · exact diagram_read_spelled hcustomers hafter (by decide) (by decide) (by decide)
      "Shop".toList none
  · dsimp only
    rw [(read_keyedScript hall "Shop".toList none).1]
    decide

end Diagrams.Schema.Written
