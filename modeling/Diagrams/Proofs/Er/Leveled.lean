/-
Diagrams with their names and types levelled.

Names are looked up by their lower case, and levelling a name without blanks does not
change its lower case.  So in a diagram whose names have no blanks every lookup finds the
same place before and after levelling, keys are marked on the same columns, and the same
foreign keys become relationships.
-/
import Diagrams.Proofs.Er.Keys
import Diagrams.Proofs.Graph
import Diagrams.Proofs.Text.Leveled

namespace Diagrams.Er

/-- A change can be made before all items are mapped or after it. -/
theorem modify_map {α β : Type} {f : α → β} {change : α → α} {change' : β → β} {items : List α}
    (h : ∀ item ∈ items, change' (f item) = f (change item)) (index : Nat) :
    (items.map f).modify index change' = (items.modify index change).map f := by
  refine List.ext_getElem? fun place => ?_
  rw [List.getElem?_modify, List.getElem?_map, List.getElem?_map, List.getElem?_modify]
  cases hitem : items[place]? with
  | none => rfl
  | some item =>
      have hsame := h item (List.mem_of_getElem? hitem)
      by_cases hplace : index = place
      · simp [hplace, hsame]
      · simp [hplace]

/-! ### Levelled tables -/

/-- The column with its texts levelled. -/
def Column.leveled (column : Column) : Column :=
  { column with
    name := column.name.map Diagrams.leveled
    type := column.type.map Diagrams.leveled
    referencedTable := column.referencedTable.map (List.map Diagrams.leveled)
    referencedColumn := column.referencedColumn.map (List.map Diagrams.leveled) }

/-- The table with its texts levelled. -/
def Entity.leveled (entity : Entity) : Entity :=
  { entity with
    name := entity.name.map Diagrams.leveled
    columns := entity.columns.map Column.leveled }

/-- The foreign key with its texts levelled. -/
def ForeignKey.leveled (key : ForeignKey) : ForeignKey where
  sourceTable := key.sourceTable.map Diagrams.leveled
  column := key.column.map Diagrams.leveled
  targetTable := key.targetTable.map Diagrams.leveled
  targetColumn := key.targetColumn.map (List.map Diagrams.leveled)

/-- The relationship with its name levelled. -/
def leveledEdge (edge : Edge Relationship) : Edge Relationship :=
  { edge with label := { edge.label with name := edge.label.name.map leveled } }

/-- The names in a table have no blanks. -/
structure Entity.Unbroken (entity : Entity) : Prop where
  /-- The table. -/
  name : entity.name.Unbroken
  /-- Its columns. -/
  columns : ∀ name ∈ entity.columns.map Column.name, Text.Unbroken name

/-- The names in a foreign key have no blanks. -/
structure ForeignKey.Unbroken (key : ForeignKey) : Prop where
  /-- The table that refers. -/
  sourceTable : key.sourceTable.Unbroken
  /-- The column that refers. -/
  column : key.column.Unbroken
  /-- The table referred to. -/
  targetTable : key.targetTable.Unbroken
  /-- The column referred to. -/
  targetColumn : ∀ name ∈ key.targetColumn, Text.Unbroken name

namespace Entity

variable {entity : Entity} {name : Text}

theorem same_name_leveled {column : Column} (h : entity.Unbroken)
    (hcolumn : column ∈ entity.columns) (hname : name.Unbroken) :
    (column.leveled.name.lower = Text.lower (name.map Diagrams.leveled))
      = (column.name.lower = name.lower) := by
  have hlower : column.leveled.name.lower = column.name.lower :=
    Text.lower_map_leveled (h.columns _ (List.mem_map_of_mem hcolumn))
  rw [hlower, Text.lower_map_leveled hname]

theorem columnIndex?_leveled (h : entity.Unbroken) (hname : name.Unbroken) :
    entity.leveled.columnIndex? (name.map Diagrams.leveled) = entity.columnIndex? name := by
  have hfound : ∀ found : Column → Bool,
      entity.columns.findIdx? found = (entity.columns.map found).findIdx? id := fun found => by
    rw [List.findIdx?_map, Function.id_comp]
  unfold columnIndex? leveled
  rw [List.findIdx?_map, hfound, hfound]
  congr 1
  exact List.map_congr_left fun column hcolumn => by
    simp only [Function.comp_apply, same_name_leveled h hcolumn hname]

theorem column?_leveled (h : entity.Unbroken) (hname : name.Unbroken) :
    entity.leveled.column? (name.map Diagrams.leveled)
      = (entity.column? name).map Column.leveled := by
  unfold column? leveled
  rw [List.find?_map]
  congr 1
  exact List.find?_congr fun column hcolumn => by
    simp only [Function.comp_apply, same_name_leveled h hcolumn hname]

theorem isUniqueKey_leveled (h : entity.Unbroken) (hname : name.Unbroken) :
    entity.leveled.isUniqueKey (name.map Diagrams.leveled) = entity.isUniqueKey name := by
  have hkeys : entity.leveled.primaryKeys.length = entity.primaryKeys.length := by
    unfold primaryKeys leveled
    rw [List.filter_map, List.length_map]
    rfl
  unfold isUniqueKey
  rw [column?_leveled h hname, hkeys]
  cases entity.column? name <;> rfl

/-! ### Marked keys -/

theorem modifyColumn_leveled {change change' : Column → Column} (h : entity.Unbroken)
    (hname : name.Unbroken)
    (hchange : ∀ column : Column, change' column.leveled = (change column).leveled) :
    entity.leveled.modifyColumn (name.map Diagrams.leveled) change'
      = (entity.modifyColumn name change).leveled := by
  unfold modifyColumn
  rw [columnIndex?_leveled h hname]
  cases entity.columnIndex? name with
  | none => rfl
  | some index =>
      have hcolumns : (entity.columns.map Column.leveled).modify index change'
          = (entity.columns.modify index change).map Column.leveled :=
        modify_map (fun column _ => hchange column) index
      simp only [leveled, hcolumns]

theorem Unbroken.modifyColumn {change : Column → Column} (h : entity.Unbroken) (name : Text)
    (hchange : ∀ column, (change column).name = column.name) :
    (entity.modifyColumn name change).Unbroken := by
  refine ⟨?_, ?_⟩
  · rw [name_modifyColumn]
    exact h.name
  · rw [map_name_modifyColumn entity name hchange]
    exact h.columns

/-- Changes to one column after the other can be made on the levelled table. -/
theorem foldl_modifyColumn_leveled {α : Type} {items : List α} {image : α → α} {name : α → Text}
    {change : α → Column → Column} (h : entity.Unbroken)
    (hname : ∀ item ∈ items, (name item).Unbroken)
    (himage : ∀ item, name (image item) = (name item).map Diagrams.leveled)
    (hchange : ∀ item (column : Column),
      change (image item) column.leveled = (change item column).leveled)
    (hkeep : ∀ item column, (change item column).name = column.name) :
    (items.map image).foldl (fun e item => e.modifyColumn (name item) (change item)) entity.leveled
      = (items.foldl (fun e item => e.modifyColumn (name item) (change item)) entity).leveled := by
  induction items generalizing entity with
  | nil => rfl
  | cons item items ih =>
      obtain ⟨hitem, hitems⟩ := List.forall_mem_cons.mp hname
      rw [List.map_cons, List.foldl_cons, List.foldl_cons, himage,
        modifyColumn_leveled h hitem (hchange item)]
      exact ih (h.modifyColumn _ (hkeep item)) hitems

theorem Unbroken.applyKeys (h : entity.Unbroken) (primaryKeys : List Text)
    (foreignKeys : List ForeignKey) : (entity.applyKeys primaryKeys foreignKeys).Unbroken := by
  refine ⟨?_, ?_⟩
  · rw [name_applyKeys]
    exact h.name
  · rw [map_name_applyKeys]
    exact h.columns

/-- The same columns are marked as keys in a levelled table. -/
theorem Unbroken.applyKeys_leveled {primaryKeys : List Text} {foreignKeys : List ForeignKey}
    (h : entity.Unbroken) (hprimary : ∀ name ∈ primaryKeys, Text.Unbroken name)
    (hforeign : ∀ key ∈ foreignKeys, key.Unbroken) :
    entity.leveled.applyKeys (primaryKeys.map (List.map Diagrams.leveled))
        (foreignKeys.map ForeignKey.leveled)
      = (entity.applyKeys primaryKeys foreignKeys).leveled := by
  have hmarked : (primaryKeys.map (List.map Diagrams.leveled)).foldl
        (fun e name => e.modifyColumn name .markPrimaryKey) entity.leveled
      = (entity.applyKeys primaryKeys []).leveled :=
    foldl_modifyColumn_leveled h hprimary (fun _ => rfl) (fun _ _ => rfl) fun _ _ => rfl
  unfold Entity.applyKeys at hmarked ⊢
  rw [hmarked]
  exact foldl_modifyColumn_leveled (h.applyKeys primaryKeys [])
    (fun key hkey => (hforeign key hkey).column) (fun _ => rfl) (fun _ _ => rfl) fun _ _ => rfl

end Entity

/-! ### Levelled diagrams -/

namespace Diagram

/-- The diagram with its names and types levelled; the title stays. -/
def leveled (diagram : Diagram) : Diagram :=
  { diagram with
    pool := diagram.pool.map Entity.leveled
    edgePool := diagram.edgePool.map leveledEdge }

/-- Names are looked up by their lower case, and the names of tables and columns have no blanks. -/
structure Unbroken (diagram : Diagram) : Prop where
  /-- The registry does not regard case. -/
  caseless : diagram.registry.caseSensitive = false
  /-- No table has a name with a blank in it. -/
  tables : ∀ table ∈ diagram.pool, table.Unbroken

variable {diagram : Diagram} {name : Text}

theorem node?_leveled (node : Nat) :
    diagram.leveled.node? node = (diagram.node? node).map Entity.leveled :=
  List.getElem?_map

theorem nameOf_leveled (node : Nat) :
    diagram.leveled.nameOf node = (diagram.nameOf node).map Diagrams.leveled := by
  unfold Graph.nameOf
  rw [node?_leveled]
  cases diagram.node? node <;> rfl

theorem Unbroken.node? (h : diagram.Unbroken) {node : Nat} {table : Entity}
    (htable : diagram.node? node = some table) : table.Unbroken :=
  h.tables table (List.mem_of_getElem? htable)

theorem Unbroken.nameOf (h : diagram.Unbroken) (node : Nat) : (diagram.nameOf node).Unbroken := by
  unfold Graph.nameOf
  cases htable : diagram.node? node with
  | none => exact List.forall_mem_nil _
  | some table => exact (h.node? htable).name

theorem key_leveled (h : diagram.Unbroken) (hname : name.Unbroken) :
    diagram.registry.key (name.map Diagrams.leveled) = diagram.registry.key name := by
  unfold Registry.key
  rw [h.caseless]
  exact Text.lower_map_leveled hname

theorem lookup?_leveled (h : diagram.Unbroken) (hname : name.Unbroken) :
    diagram.leveled.lookup? (name.map Diagrams.leveled) = diagram.lookup? name := by
  have hbinding : diagram.registry.binding? (name.map Diagrams.leveled)
      = diagram.registry.binding? name := by
    unfold Registry.binding?
    rw [key_leveled h hname]
  exact congrArg Option.join hbinding

/-! ### Tables added and changed -/

theorem nameOf_create_nextNode (diagram : Diagram) (table : Entity) :
    Graph.nameOf (diagram.create table) diagram.nextNode = table.name := by
  unfold Graph.nameOf
  rw [Graph.node?_create_nextNode]
  rfl

theorem register_leveled (h : diagram.Unbroken) (hname : name.Unbroken) (node : Option Nat) :
    diagram.registry.register (name.map Diagrams.leveled) node
      = diagram.registry.register name node := by
  unfold Registry.register Registry.contains Registry.binding?
  rw [key_leveled h hname]

theorem insert_leveled {table : Entity} (h : diagram.Unbroken) (htable : table.Unbroken) :
    diagram.leveled.insert table.leveled = leveled (diagram.insert table) := by
  have hnext : diagram.leveled.nextNode = diagram.nextNode := List.length_map _
  have hname : Graph.nameOf (diagram.leveled.create table.leveled) diagram.leveled.nextNode
      = (Graph.nameOf (diagram.create table) diagram.nextNode).map Diagrams.leveled := by
    rw [nameOf_create_nextNode, nameOf_create_nextNode]
    rfl
  have hregistry : diagram.registry.register
        ((Graph.nameOf (diagram.create table) diagram.nextNode).map Diagrams.leveled)
        (some diagram.nextNode)
      = diagram.registry.register (Graph.nameOf (diagram.create table) diagram.nextNode)
        (some diagram.nextNode) := by
    rw [nameOf_create_nextNode]
    exact register_leveled h htable.name _
  unfold Graph.insert Graph.add
  rw [hname, hnext]
  simp only [Graph.create, leveled] at hregistry ⊢
  rw [hregistry, List.map_append]
  rfl

theorem Unbroken.insert {table : Entity} (h : diagram.Unbroken) (htable : table.Unbroken) :
    Unbroken (diagram.insert table) := by
  refine ⟨h.caseless, fun other hother => ?_⟩
  rcases List.mem_append.mp (show other ∈ diagram.pool ++ [table] from hother) with hold | hnew
  · exact h.tables other hold
  · exact List.mem_singleton.mp hnew ▸ htable

theorem modify_leveled {node : Nat} {change change' : Entity → Entity} (h : diagram.Unbroken)
    (hchange : ∀ table : Entity, table.Unbroken → change' table.leveled = (change table).leveled) :
    diagram.leveled.modify node change' = leveled (diagram.modify node change) := by
  have hpool : (diagram.pool.map Entity.leveled).modify node change'
      = (diagram.pool.modify node change).map Entity.leveled :=
    modify_map (fun table htable => hchange table (h.tables table htable)) node
  unfold Graph.modify leveled
  rw [hpool]

theorem Unbroken.modify {node : Nat} {change : Entity → Entity} (h : diagram.Unbroken)
    (hchange : ∀ table : Entity, table.Unbroken → (change table).Unbroken) :
    Unbroken (diagram.modify node change) := by
  refine ⟨h.caseless, fun table htable => ?_⟩
  obtain ⟨place, hplace⟩ := List.mem_iff_getElem?.mp htable
  change (diagram.modify node change).node? place = some table at hplace
  rw [Graph.node?_modify] at hplace
  split at hplace
  · obtain ⟨old, hold, rfl⟩ := Option.map_eq_some_iff.mp hplace
    exact hchange old (h.node? hold)
  · exact h.node? hplace

/-! ### Relationships -/

theorem columnIndex?_leveled (h : diagram.Unbroken) (hname : name.Unbroken) (node : Nat) :
    diagram.leveled.columnIndex? node (name.map Diagrams.leveled)
      = diagram.columnIndex? node name := by
  unfold columnIndex?
  rw [node?_leveled]
  cases htable : diagram.node? node with
  | none => rfl
  | some table => exact Entity.columnIndex?_leveled (h.node? htable) hname

theorem column?_leveled (node : Nat) (index : Option Nat) :
    diagram.leveled.column? node index = (diagram.column? node index).map Column.leveled := by
  unfold column?
  rw [node?_leveled]
  cases diagram.node? node with
  | none => rfl
  | some table =>
      cases index with
      | none => rfl
      | some place => exact List.getElem?_map

theorem relationship_leveled (source target : Nat) (cardinality : Cardinality)
    (sourceColumn targetColumn : Option Nat) :
    diagram.leveled.relationship source target cardinality sourceColumn targetColumn []
      = leveledEdge (diagram.relationship source target cardinality sourceColumn
        targetColumn []) := by
  have hline : Diagrams.leveled '_' = '_' := leveled_sign '_' (by decide)
  simp [relationship, leveledEdge, nameOf_leveled, hline]

/-- A foreign key becomes the levelled relationship in the levelled diagram. -/
theorem relationshipOf?_leveled {key : ForeignKey} (h : diagram.Unbroken) (hkey : key.Unbroken) :
    diagram.leveled.relationshipOf? key.leveled
      = (diagram.relationshipOf? key).map leveledEdge := by
  have hsource : diagram.leveled.lookup? key.leveled.sourceTable
      = diagram.lookup? key.sourceTable := lookup?_leveled h hkey.sourceTable
  have htarget : diagram.leveled.lookup? key.leveled.targetTable
      = diagram.lookup? key.targetTable := lookup?_leveled h hkey.targetTable
  have hunique : ∀ node, (diagram.leveled.node? node).any (·.isUniqueKey key.leveled.column)
      = (diagram.node? node).any (·.isUniqueKey key.column) := by
    intro node
    rw [node?_leveled]
    cases htable : diagram.node? node with
    | none => rfl
    | some table => exact Entity.isUniqueKey_leveled (h.node? htable) hkey.column
  have hcolumn : ∀ node, diagram.leveled.columnIndex? node key.leveled.column
      = diagram.columnIndex? node key.column := columnIndex?_leveled h hkey.column
  have hreference : ∀ node, key.leveled.targetColumn.bind (diagram.leveled.columnIndex? node)
      = key.targetColumn.bind (diagram.columnIndex? node) := by
    intro node
    cases hname : key.targetColumn with
    | none => simp [ForeignKey.leveled, hname]
    | some name =>
        have hunbroken : Text.Unbroken name := hkey.targetColumn name hname
        simpa [ForeignKey.leveled, hname] using columnIndex?_leveled h hunbroken node
  have hkeyFlag : ∀ node index, (diagram.leveled.column? node index).any (·.isPrimaryKey)
      = (diagram.column? node index).any (·.isPrimaryKey) := by
    intro node index
    rw [column?_leveled]
    cases diagram.column? node index <;> rfl
  unfold relationshipOf?
  rw [hsource, htarget]
  cases diagram.lookup? key.sourceTable with
  | none => rfl
  | some source =>
      cases diagram.lookup? key.targetTable with
      | none => rfl
      | some target =>
          simp only [Option.bind_eq_bind, Option.bind_some, hunique, hcolumn, hreference, hkeyFlag,
            relationship_leveled]
          rfl

/-- **Foreign keys become the levelled relationships in the levelled diagram.** -/
theorem resolveForeignKeys_leveled {keys : List ForeignKey} (h : diagram.Unbroken)
    (hkeys : ∀ key ∈ keys, key.Unbroken) :
    diagram.leveled.resolveForeignKeys (keys.map ForeignKey.leveled)
      = (diagram.resolveForeignKeys keys).leveled := by
  have hedges : diagram.leveled.relationshipsOf (keys.map ForeignKey.leveled)
      = (diagram.relationshipsOf keys).map leveledEdge := by
    unfold relationshipsOf
    rw [List.filterMap_map, List.map_filterMap]
    exact List.filterMap_congr fun key hkey => relationshipOf?_leveled h (hkeys key hkey)
  unfold resolveForeignKeys
  rw [hedges, Graph.foldl_connect, Graph.foldl_connect]
  simp [leveled, Graph.nextEdge]

end Diagram

end Diagrams.Er
