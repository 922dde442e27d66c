/-
The key flags of columns.

A column is born without flags, and only two marks ever change them: being part of the primary key
forbids null, and being part of a foreign key records the table referred to.  Both marks keep
`FlagsAgree`, so marking the keys of a table keeps it for all its columns, in whatever order the
keys come and whatever names they hold.

Where no two columns share a name, marking keys is a change to each column by itself: a column is
marked as a primary key if any of the names is its own, and the last foreign key of its name is the
one that it records (`columns_applyKeys`).
-/
import Mathlib.Data.List.Forall2
import Diagrams.Er.ForeignKey

namespace Diagrams.Er

/-- The flags of a column say the same as what is recorded beside them. -/
structure Column.FlagsAgree (column : Column) : Prop where
  /-- Columns of the primary key are never null. -/
  notNull : column.isPrimaryKey = true → column.isNullable = false
  /-- Columns of a foreign key are those that refer to a table. -/
  referring : column.isForeignKey = true ↔ column.referencedTable ≠ none

namespace Column.FlagsAgree

theorem of_unmarked (name type : Text) (isNullable : Bool) :
    FlagsAgree { name, type, isNullable } :=
  ⟨fun h => Bool.noConfusion h, by simp⟩

theorem markPrimaryKey {column : Column} (h : column.FlagsAgree) :
    column.markPrimaryKey.FlagsAgree :=
  ⟨fun _ => rfl, h.referring⟩

theorem markForeignKey {column : Column} (h : column.FlagsAgree) (table : Text)
    (reference : Option Text) : (column.markForeignKey table reference).FlagsAgree :=
  ⟨h.notNull, by simp [Column.markForeignKey]⟩

end Column.FlagsAgree

namespace Entity

/-- The flags of all columns of a table agree. -/
def FlagsAgree (entity : Entity) : Prop := ∀ column ∈ entity.columns, column.FlagsAgree

@[simp] theorem name_modifyColumn (entity : Entity) (name : Text) (change : Column → Column) :
    (entity.modifyColumn name change).name = entity.name := by
  unfold modifyColumn
  split <;> rfl

theorem map_name_modifyColumn (entity : Entity) (name : Text) {change : Column → Column}
    (hchange : ∀ column, (change column).name = column.name) :
    (entity.modifyColumn name change).columns.map Column.name
      = entity.columns.map Column.name := by
  unfold modifyColumn
  split
  · rename_i index _
    refine List.ext_getElem? fun place => ?_
    rw [List.getElem?_map, List.getElem?_map, List.getElem?_modify]
    cases entity.columns[place]? with
    | none => rfl
    | some column =>
        by_cases hsame : index = place
        · simp [hsame, hchange]
        · simp [hsame]
  · rfl

theorem FlagsAgree.modifyColumn {entity : Entity} (h : entity.FlagsAgree) (name : Text)
    {change : Column → Column} (hchange : ∀ column, column.FlagsAgree →
      (change column).FlagsAgree) :
    (entity.modifyColumn name change).FlagsAgree := by
  unfold Entity.modifyColumn
  split
  · rename_i index _
    intro column hcolumn
    obtain ⟨place, hplace⟩ := List.mem_iff_getElem?.mp hcolumn
    rw [List.getElem?_modify] at hplace
    obtain ⟨old, hold, heq⟩ := Option.map_eq_some_iff.mp hplace
    have hagree : old.FlagsAgree := h old (List.mem_of_getElem? hold)
    by_cases hsame : index = place
    · rw [if_pos hsame] at heq
      exact heq ▸ hchange old hagree
    · rw [if_neg hsame] at heq
      exact heq ▸ hagree
  · exact h

/-- What both marks keep, marking the keys of a table keeps. -/
theorem applyKeys_induction {motive : Entity → Prop} {entity : Entity} (start : motive entity)
    (primary : ∀ (e : Entity) (name : Text), motive e →
      motive (e.modifyColumn name .markPrimaryKey))
    (foreign : ∀ (e : Entity) (key : ForeignKey), motive e →
      motive (e.modifyColumn key.column (.markForeignKey key.targetTable key.targetColumn)))
    (primaryKeys : List Text) (foreignKeys : List ForeignKey) :
    motive (entity.applyKeys primaryKeys foreignKeys) := by
  unfold applyKeys
  refine List.foldlRecOn foreignKeys _ ?_ fun e he key _ => foreign e key he
  exact List.foldlRecOn primaryKeys _ start fun e he name _ => primary e name he

/-- Marking keys renames no table. -/
@[simp] theorem name_applyKeys (entity : Entity) (primaryKeys : List Text)
    (foreignKeys : List ForeignKey) :
    (entity.applyKeys primaryKeys foreignKeys).name = entity.name := by
  refine applyKeys_induction (motive := fun e => e.name = entity.name) rfl ?_ ?_ _ _
  · exact fun e name he => (e.name_modifyColumn name _).trans he
  · exact fun e key he => (e.name_modifyColumn key.column _).trans he

/-- Two tables name their columns alike, in the same order. -/
def SameNames (entity other : Entity) : Prop :=
  other.columns.map Column.name = entity.columns.map Column.name

theorem SameNames.modifyColumn {entity other : Entity} (h : entity.SameNames other) (name : Text)
    {change : Column → Column} (hchange : ∀ column, (change column).name = column.name) :
    entity.SameNames (other.modifyColumn name change) :=
  (other.map_name_modifyColumn name hchange).trans h

/-- Marking keys renames no column. -/
theorem map_name_applyKeys (entity : Entity) (primaryKeys : List Text)
    (foreignKeys : List ForeignKey) :
    (entity.applyKeys primaryKeys foreignKeys).columns.map Column.name
      = entity.columns.map Column.name := by
  refine applyKeys_induction (motive := entity.SameNames) rfl ?_ ?_ _ _
  · exact fun e name he => he.modifyColumn name fun _ => rfl
  · exact fun e key he => he.modifyColumn key.column fun _ => rfl

theorem FlagsAgree.applyKeys {entity : Entity} (h : entity.FlagsAgree) (primaryKeys : List Text)
    (foreignKeys : List ForeignKey) : (entity.applyKeys primaryKeys foreignKeys).FlagsAgree := by
  refine applyKeys_induction h ?_ ?_ _ _
  · exact fun e name he => he.modifyColumn name fun _ => Column.FlagsAgree.markPrimaryKey
  · intro e key he
    exact he.modifyColumn key.column fun _ hcolumn => hcolumn.markForeignKey _ _

/-! ### One column at a time -/

/-- What names stand for in a table depends on the names of its columns only. -/
theorem columnIndex?_congr {table other : Entity}
    (h : table.columns.map Column.name = other.columns.map Column.name) :
    table.columnIndex? = other.columnIndex? := by
  funext name
  have hfound := congrArg (List.findIdx? fun column : Text => decide (column.lower = name.lower)) h
  rw [List.findIdx?_map, List.findIdx?_map] at hfound
  exact hfound

theorem columnIndex?_modifyColumn (table : Entity) (name : Text) {change : Column → Column}
    (h : ∀ column, (change column).name = column.name) :
    (table.modifyColumn name change).columnIndex? = table.columnIndex? :=
  columnIndex?_congr (table.map_name_modifyColumn name h)

/-- Changing the column that a name stands for leaves the columns at other places alone. -/
theorem getElem?_modifyColumn (table : Entity) (name : Text) (change : Column → Column)
    (place : Nat) :
    (table.modifyColumn name change).columns[place]?
      = if table.columnIndex? name = some place then table.columns[place]?.map change
        else table.columns[place]? := by
  unfold modifyColumn
  cases hindex : table.columnIndex? name with
  | none => rfl
  | some index =>
      dsimp only
      rw [List.getElem?_modify]
      by_cases hplace : index = place
      · rw [if_pos (congrArg some hplace), hplace]
        cases table.columns[place]? <;> simp
      · rw [if_neg fun heq => hplace (Option.some.inj heq)]
        cases table.columns[place]? <;> simp [hplace]

/-- Which columns names are marked as a primary key does not depend on how often and in which order
they are named. -/
theorem getElem?_foldl_markPrimaryKey (entity : Entity) (names : List Text) (place : Nat) :
    (names.foldl (fun e name => e.modifyColumn name .markPrimaryKey) entity).columns[place]?
      = if names.any (fun name => entity.columnIndex? name = some place) then
          entity.columns[place]?.map Column.markPrimaryKey
        else entity.columns[place]? := by
  induction names generalizing entity with
  | nil => rfl
  | cons name names ih =>
      have hindex : (entity.modifyColumn name .markPrimaryKey).columnIndex? = entity.columnIndex? :=
        entity.columnIndex?_modifyColumn name fun _ => rfl
      rw [List.foldl_cons, ih, hindex, getElem?_modifyColumn, List.any_cons]
      by_cases hname : entity.columnIndex? name = some place
      · have htwice : (Option.map Column.markPrimaryKey entity.columns[place]?).map
            Column.markPrimaryKey = entity.columns[place]?.map Column.markPrimaryKey := by
          rw [Option.map_map]
          rfl
        simp [hname, htwice]
      · simp [hname]

/-! ### Columns of different names -/

/-- No two columns have the same name, case aside. -/
def DistinctColumns (entity : Entity) : Prop :=
  (entity.columns.map fun column => column.name.lower).Nodup

theorem modify_findIdx?_of_nodup {columns : List Column} (change : Column → Column) (name : Text)
    (h : (columns.map fun column => column.name.lower).Nodup) :
    (match columns.findIdx? fun column => column.name.lower = name.lower with
      | some index => columns.modify index change
      | none => columns)
      = columns.map fun column =>
          if column.name.lower = name.lower then change column else column := by
  induction columns with
  | nil => rfl
  | cons column columns ih =>
      rw [List.map_cons, List.nodup_cons] at h
      obtain ⟨hfresh, hrest⟩ := h
      rw [List.findIdx?_cons, List.map_cons]
      by_cases hname : column.name.lower = name.lower
      · have hothers : (columns.map fun other =>
            if other.name.lower = name.lower then change other else other) = columns := by
          refine (List.map_congr_left fun other hother => ?_).trans (List.map_id columns)
          have hne : other.name.lower ≠ name.lower := fun heq =>
            hfresh (List.mem_map.mpr ⟨other, hother, heq.trans hname.symm⟩)
          rw [if_neg hne]
          rfl
        rw [if_pos (by simpa using hname), if_pos hname, hothers]
        rfl
      · rw [if_neg (by simpa using hname), if_neg hname, ← ih hrest]
        cases columns.findIdx? fun other => decide (other.name.lower = name.lower) <;> rfl

theorem columns_modifyColumn {entity : Entity} (h : entity.DistinctColumns) (name : Text)
    (change : Column → Column) :
    (entity.modifyColumn name change).columns
      = entity.columns.map fun column =>
          if column.name.lower = name.lower then change column else column := by
  have hmodify := modify_findIdx?_of_nodup change name h
  unfold modifyColumn columnIndex?
  rw [← hmodify]
  cases entity.columns.findIdx? fun column => decide (column.name.lower = name.lower) <;> rfl

theorem DistinctColumns.modifyColumn {entity : Entity} (h : entity.DistinctColumns) (name : Text)
    {change : Column → Column} (hchange : ∀ column, (change column).name = column.name) :
    (entity.modifyColumn name change).DistinctColumns := by
  have hnames := congrArg (List.map Text.lower) (entity.map_name_modifyColumn name hchange)
  rw [List.map_map, List.map_map] at hnames
  show ((entity.modifyColumn name change).columns.map (Text.lower ∘ Column.name)).Nodup
  rw [hnames]
  exact h

theorem columns_foldl_markPrimaryKey {entity : Entity} (h : entity.DistinctColumns)
    (names : List Text) :
    (names.foldl (fun e name => e.modifyColumn name .markPrimaryKey) entity).columns
      = entity.columns.map fun column =>
          if names.any (fun name => column.name.lower = name.lower) then column.markPrimaryKey
          else column := by
  induction names generalizing entity with
  | nil => simp
  | cons name names ih =>
      have hkeep : ∀ column : Column, column.markPrimaryKey.name = column.name := fun _ => rfl
      rw [List.foldl_cons, ih (h.modifyColumn name hkeep), columns_modifyColumn h, List.map_map]
      refine List.map_congr_left fun column _ => ?_
      by_cases hname : column.name.lower = name.lower
      · have htwice : column.markPrimaryKey.markPrimaryKey = column.markPrimaryKey := rfl
        simp [hname, hkeep, htwice]
      · simp [hname]

/-- The last of the foreign keys of a column. -/
def lastKey? (keys : List ForeignKey) (column : Column) : Option ForeignKey :=
  (keys.filter fun key => column.name.lower = key.column.lower).getLast?

theorem columns_foldl_markForeignKey {entity : Entity} (h : entity.DistinctColumns)
    (keys : List ForeignKey) :
    (keys.foldl
        (fun e key => e.modifyColumn key.column (.markForeignKey key.targetTable key.targetColumn))
        entity).columns
      = entity.columns.map fun column =>
          match lastKey? keys column with
          | some key => column.markForeignKey key.targetTable key.targetColumn
          | none => column := by
  induction keys generalizing entity with
  | nil => simp [lastKey?]
  | cons key keys ih =>
      have hkeep : ∀ column : Column,
          (column.markForeignKey key.targetTable key.targetColumn).name
            = column.name := fun _ => rfl
      rw [List.foldl_cons, ih (h.modifyColumn key.column hkeep), columns_modifyColumn h,
        List.map_map]
      refine List.map_congr_left fun column _ => ?_
      by_cases hname : column.name.lower = key.column.lower
      · have hlast : lastKey? (key :: keys) column = some ((lastKey? keys column).getD key) := by
          unfold lastKey?
          rw [List.filter_cons_of_pos (by simpa using hname), List.getLast?_cons]
        have hmarked : lastKey? keys (column.markForeignKey key.targetTable key.targetColumn)
            = lastKey? keys column := rfl
        rw [hlast]
        simp only [Function.comp_apply, if_pos hname, hmarked]
        cases lastKey? keys column <;> rfl
      · have hlast : lastKey? (key :: keys) column = lastKey? keys column := by
          unfold lastKey?
          rw [List.filter_cons_of_neg (by simpa using hname)]
        rw [hlast]
        simp only [Function.comp_apply, if_neg hname]

/-- The column with the marks that keys leave on it. -/
def marked (primaryKeys : List Text) (foreignKeys : List ForeignKey) (column : Column) : Column :=
  let keyed :=
    if primaryKeys.any fun name => column.name.lower = name.lower then column.markPrimaryKey
    else column
  match lastKey? foreignKeys column with
  | some key => keyed.markForeignKey key.targetTable key.targetColumn
  | none => keyed

/-- Marking the keys of a table marks each of its columns by itself. -/
theorem columns_applyKeys {entity : Entity} (h : entity.DistinctColumns) (primaryKeys : List Text)
    (foreignKeys : List ForeignKey) :
    (entity.applyKeys primaryKeys foreignKeys).columns
      = entity.columns.map (marked primaryKeys foreignKeys) := by
  have hprimary : (primaryKeys.foldl (fun e name => e.modifyColumn name .markPrimaryKey)
      entity).DistinctColumns := by
    refine List.foldlRecOn (motive := DistinctColumns) primaryKeys _ h fun e he name _ => ?_
    exact he.modifyColumn name fun _ => rfl
  unfold applyKeys
  rw [columns_foldl_markForeignKey hprimary, columns_foldl_markPrimaryKey h, List.map_map]
  refine List.map_congr_left fun column _ => ?_
  unfold marked
  by_cases hany : primaryKeys.any (fun name => decide (column.name.lower = name.lower)) = true
  · have hsame : lastKey? foreignKeys column.markPrimaryKey = lastKey? foreignKeys column := rfl
    simp only [Function.comp_apply, if_pos hany, hsame]
  · simp only [Function.comp_apply, if_neg hany]

/-- A table differs from another one in its columns only. -/
def SameFrame (entity other : Entity) : Prop := other = { entity with columns := other.columns }

/-- Changing a column changes nothing but the columns of a table. -/
theorem modifyColumn_eq (entity : Entity) (name : Text) (change : Column → Column) :
    entity.modifyColumn name change
      = { entity with columns := (entity.modifyColumn name change).columns } := by
  unfold modifyColumn
  split <;> rfl

theorem SameFrame.refl (entity : Entity) : entity.SameFrame entity := rfl

theorem SameFrame.modifyColumn {entity other : Entity} (h : entity.SameFrame other) (name : Text)
    (change : Column → Column) : entity.SameFrame (other.modifyColumn name change) := by
  show other.modifyColumn name change = _
  rw [modifyColumn_eq, h]

/-- Marking keys changes nothing but the columns of a table. -/
theorem applyKeys_eq (entity : Entity) (primaryKeys : List Text) (foreignKeys : List ForeignKey) :
    entity.applyKeys primaryKeys foreignKeys
      = { entity with columns := (entity.applyKeys primaryKeys foreignKeys).columns } := by
  refine applyKeys_induction (motive := entity.SameFrame) (.refl entity) ?_ ?_ _ _
  · exact fun e name he => he.modifyColumn name _
  · exact fun e key he => he.modifyColumn key.column _

/-- Names that stand for the same columns mark the same primary key. -/
theorem applyKeys_congr (entity : Entity) {names others : List Text} (foreignKeys : List ForeignKey)
    (h : ∀ place, (∃ name ∈ names, entity.columnIndex? name = some place) ↔
      ∃ name ∈ others, entity.columnIndex? name = some place) :
    entity.applyKeys names foreignKeys = entity.applyKeys others foreignKeys := by
  have hany : ∀ (names : List Text) (place : Nat),
      names.any (fun name => decide (entity.columnIndex? name = some place)) = true ↔
        ∃ name ∈ names, entity.columnIndex? name = some place := by
    intro names place
    simp
  have hcolumns : (entity.applyKeys names []).columns = (entity.applyKeys others []).columns := by
    refine List.ext_getElem? fun place => ?_
    show (names.foldl _ entity).columns[place]? = (others.foldl _ entity).columns[place]?
    rw [getElem?_foldl_markPrimaryKey, getElem?_foldl_markPrimaryKey]
    have hsame := (hany names place).trans ((h place).trans (hany others place).symm)
    rw [Bool.eq_iff_iff.mpr hsame]
  have hprimary : entity.applyKeys names [] = entity.applyKeys others [] := by
    rw [applyKeys_eq entity names, applyKeys_eq entity others, hcolumns]
  exact congrArg (fun e => foreignKeys.foldl (fun e key =>
    e.modifyColumn key.column (.markForeignKey key.targetTable key.targetColumn)) e) hprimary

/-! ### Keys that come one after the other -/

/-- Changes that do not regard each other may be made in either order. -/
theorem modifyColumn_comm (entity : Entity) (name other : Text) {change change' : Column → Column}
    (hname : ∀ column, (change column).name = column.name)
    (hname' : ∀ column, (change' column).name = column.name)
    (hcomm : ∀ column, change' (change column) = change (change' column)) :
    (entity.modifyColumn name change).modifyColumn other change'
      = (entity.modifyColumn other change').modifyColumn name change := by
  have hcolumns : ((entity.modifyColumn name change).modifyColumn other change').columns
      = ((entity.modifyColumn other change').modifyColumn name change).columns := by
    refine List.ext_getElem? fun place => ?_
    rw [getElem?_modifyColumn, getElem?_modifyColumn, getElem?_modifyColumn, getElem?_modifyColumn,
      columnIndex?_modifyColumn _ _ hname, columnIndex?_modifyColumn _ _ hname']
    by_cases hplace : entity.columnIndex? name = some place <;>
      by_cases hplace' : entity.columnIndex? other = some place <;>
        simp [hplace, hplace', Function.comp_def, hcomm]
  have hframe : ∀ (name other : Text) (change change' : Column → Column),
      (entity.modifyColumn name change).modifyColumn other change' = { entity with
        columns := ((entity.modifyColumn name change).modifyColumn other change').columns } := by
    intro name other change change'
    refine (modifyColumn_eq _ other change').trans ?_
    unfold modifyColumn
    cases entity.columnIndex? name <;> rfl
  rw [hframe name, hframe other, hcolumns]

/-- Keys that are marked later are marked as if they had come with the others. -/
theorem applyKeys_applyKeys (entity : Entity) (names names' : List Text)
    (keys keys' : List ForeignKey) :
    (entity.applyKeys names keys).applyKeys names' keys'
      = entity.applyKeys (names ++ names') (keys ++ keys') := by
  have hprimary : ∀ (names : List Text) (key : ForeignKey) (e : Entity),
      names.foldl (fun e name => e.modifyColumn name .markPrimaryKey)
          (e.modifyColumn key.column (.markForeignKey key.targetTable key.targetColumn))
        = (names.foldl (fun e name => e.modifyColumn name .markPrimaryKey) e).modifyColumn
          key.column (.markForeignKey key.targetTable key.targetColumn) := by
    intro names key e
    induction names generalizing e with
    | nil => rfl
    | cons name names ih =>
        have hcomm := @modifyColumn_comm e key.column name
          (.markForeignKey key.targetTable key.targetColumn) .markPrimaryKey
          (fun _ => rfl) (fun _ => rfl) (fun _ => rfl)
        rw [List.foldl_cons, List.foldl_cons, hcomm, ih]
  have hforeign : ∀ (keys : List ForeignKey) (e : Entity),
      names'.foldl (fun e name => e.modifyColumn name .markPrimaryKey)
          (keys.foldl (fun e key =>
            e.modifyColumn key.column (.markForeignKey key.targetTable key.targetColumn)) e)
        = keys.foldl (fun e key =>
            e.modifyColumn key.column (.markForeignKey key.targetTable key.targetColumn))
          (names'.foldl (fun e name => e.modifyColumn name .markPrimaryKey) e) := by
    intro keys e
    induction keys generalizing e with
    | nil => rfl
    | cons key keys ih => rw [List.foldl_cons, List.foldl_cons, ih, hprimary]
  unfold applyKeys
  dsimp only
  rw [hforeign, List.foldl_append, List.foldl_append]

/-- What a name stands for does not depend on its case. -/
theorem columnIndex?_of_lower (entity : Entity) {name other : Text} (h : name.lower = other.lower) :
    entity.columnIndex? name = entity.columnIndex? other := by
  unfold columnIndex?
  rw [h]

theorem isUniqueKey_of_lower (entity : Entity) {name other : Text} (h : name.lower = other.lower) :
    entity.isUniqueKey name = entity.isUniqueKey other := by
  unfold isUniqueKey column?
  rw [h]

end Entity

/-- A foreign key with its column in lower case: all that marks and relationships depend on. -/
def ForeignKey.lowered (key : ForeignKey) : ForeignKey := { key with column := key.column.lower }

theorem forall₂_lowered {keys others : List ForeignKey}
    (h : keys.map ForeignKey.lowered = others.map ForeignKey.lowered) :
    List.Forall₂ (fun key other : ForeignKey => key.lowered = other.lowered) keys others := by
  rwa [← List.forall₂_eq_eq_eq, List.forall₂_map_left_iff, List.forall₂_map_right_iff] at h

/-- Foreign keys that are alike leave the same marks. -/
theorem Entity.applyKeys_of_lowered (entity : Entity) (names : List Text)
    {keys others : List ForeignKey}
    (h : keys.map ForeignKey.lowered = others.map ForeignKey.lowered) :
    entity.applyKeys names keys = entity.applyKeys names others := by
  unfold applyKeys
  generalize names.foldl (fun e name => e.modifyColumn name .markPrimaryKey) entity = keyed
  induction forall₂_lowered h generalizing keyed with
  | nil => rfl
  | @cons key other keys others hkey _ ih =>
      obtain ⟨-, hcolumn, htable, hreference⟩ := ForeignKey.mk.inj hkey
      have hsame : keyed.modifyColumn key.column (.markForeignKey key.targetTable key.targetColumn)
          = keyed.modifyColumn other.column
            (.markForeignKey other.targetTable other.targetColumn) := by
        unfold modifyColumn
        rw [keyed.columnIndex?_of_lower hcolumn, htable, hreference]
      dsimp only at ih ⊢
      rw [List.foldl_cons, List.foldl_cons, hsame, ih (List.cons.inj h).2]

/-- Foreign keys that are alike give rise to the same relationship. -/
theorem Diagram.relationshipOf?_of_lowered (diagram : Diagram) {key other : ForeignKey}
    (h : key.lowered = other.lowered) :
    diagram.relationshipOf? key = diagram.relationshipOf? other := by
  obtain ⟨hsource, hcolumn, htable, hreference⟩ := ForeignKey.mk.inj h
  have hindex : ∀ node,
      diagram.columnIndex? node key.column = diagram.columnIndex? node other.column := by
    intro node
    unfold columnIndex?
    simp only [Entity.columnIndex?_of_lower _ hcolumn]
  have hunique : ∀ table : Entity, table.isUniqueKey key.column = table.isUniqueKey other.column :=
    fun table => table.isUniqueKey_of_lower hcolumn
  unfold relationshipOf?
  simp only [hsource, htable, hreference, hindex, hunique]

theorem Diagram.resolveForeignKeys_of_lowered (diagram : Diagram) {keys others : List ForeignKey}
    (h : keys.map ForeignKey.lowered = others.map ForeignKey.lowered) :
    diagram.resolveForeignKeys keys = diagram.resolveForeignKeys others := by
  have hsame : diagram.relationshipsOf keys = diagram.relationshipsOf others := by
    unfold relationshipsOf
    induction forall₂_lowered h with
    | nil => rfl
    | cons hkey _ ih =>
        rw [List.filterMap_cons, List.filterMap_cons, diagram.relationshipOf?_of_lowered hkey,
          ih (List.cons.inj h).2]
  unfold resolveForeignKeys
  rw [hsame]

end Diagrams.Er
