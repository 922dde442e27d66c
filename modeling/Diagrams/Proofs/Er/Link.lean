/-
Relationships, told by the tables that they join.

What a foreign key says about its two tables depends on nothing but these tables:
`ForeignKey.label`.  Which tables they are is a matter of what their names stand for in the
diagram.  A diagram is then told without numbers by the tables that it shows, wherever they
are drawn, and by its `links`.
-/
import Diagrams.Proofs.Er.Coherent

namespace Diagrams.Er

/-- What a foreign key says about the table that it is in and the table that it refers to. -/
def ForeignKey.label (key : ForeignKey) (source target : Entity) : Relationship :=
  let targetColumn := key.targetColumn.bind target.columnIndex?
  { name := source.name ++ '_' :: target.name
    cardinality := .classify (source.isUniqueKey key.column)
      ((targetColumn.bind (target.columns[·]?)).any (·.isPrimaryKey))
    sourceColumn := source.columnIndex? key.column
    targetColumn }

namespace Diagram

/-- The table that a name stands for. -/
def table? (diagram : Diagram) (name : Text) : Option Entity :=
  (diagram.lookup? name).bind diagram.node?

/-- A relationship with the names of its tables in place of their numbers. -/
def link (diagram : Diagram) (edge : Edge Relationship) : Text × Text × Relationship :=
  (diagram.nameOf edge.source, diagram.nameOf edge.target, edge.label)

/-- The tables that a diagram shows, with their names and columns. -/
def tables (diagram : Diagram) : List (Text × List Column) :=
  diagram.nodes.map fun table => (table.name, table.columns)

/-- The relationships that a diagram shows, with the names of their tables. -/
def links (diagram : Diagram) : List (Text × Text × Relationship) :=
  diagram.shownEdges.map diagram.link

variable {diagram : Diagram} {key : ForeignKey}

/-! ### A table at its place -/

section

variable {node : Nat} {table : Entity}

theorem nameOf_eq (h : diagram.node? node = some table) : diagram.nameOf node = table.name := by
  rw [Graph.nameOf, h]
  rfl

theorem columnIndex?_eq (h : diagram.node? node = some table) :
    diagram.columnIndex? node = table.columnIndex? := by
  funext name
  rw [columnIndex?, h]
  rfl

theorem column?_eq (h : diagram.node? node = some table) (place : Option Nat) :
    diagram.column? node place = place.bind (table.columns[·]?) := by
  rw [column?, h]
  rfl

end

/-! ### The relationship of a foreign key -/

theorem relationshipOf?_of_known {source target : Nat} {sourceTable targetTable : Entity}
    (hsource : diagram.lookup? key.sourceTable = some source)
    (htarget : diagram.lookup? key.targetTable = some target)
    (hsourceTable : diagram.node? source = some sourceTable)
    (htargetTable : diagram.node? target = some targetTable) :
    diagram.relationshipOf? key
      = some { source, target, label := key.label sourceTable targetTable } := by
  apply (relationshipOf?_eq_some_iff ..).mpr
  refine ⟨source, target, hsource, htarget, ?_⟩
  rw [columnIndex?_eq htargetTable, column?_eq htargetTable, columnIndex?_eq hsourceTable,
    relationship, nameOf_eq hsourceTable, nameOf_eq htargetTable, hsourceTable]
  rfl

theorem relationshipOf?_of_unknown_source (h : diagram.lookup? key.sourceTable = none) :
    diagram.relationshipOf? key = none := by
  rw [relationshipOf?, h]
  rfl

theorem relationshipOf?_of_unknown_target (h : diagram.lookup? key.targetTable = none) :
    diagram.relationshipOf? key = none := by
  rw [relationshipOf?, h]
  cases diagram.lookup? key.sourceTable <;> rfl

/-- Every name stands for a table that was made, or for nothing. -/
def NamesMade (diagram : Diagram) : Prop :=
  ∀ name node, diagram.lookup? name = some node → ∃ table, diagram.node? node = some table

/-- The link of a foreign key depends on the tables that its names stand for. -/
theorem map_link_relationshipOf? (h : diagram.NamesMade) (key : ForeignKey) :
    (diagram.relationshipOf? key).map diagram.link
      = (diagram.table? key.sourceTable).bind fun source =>
          (diagram.table? key.targetTable).map fun target =>
            (source.name, target.name, key.label source target) := by
  unfold table?
  cases hsource : diagram.lookup? key.sourceTable with
  | none =>
      rw [relationshipOf?_of_unknown_source hsource]
      rfl
  | some source =>
      obtain ⟨sourceTable, hsourceTable⟩ := h _ _ hsource
      cases htarget : diagram.lookup? key.targetTable with
      | none =>
          rw [relationshipOf?_of_unknown_target htarget]
          simp [hsourceTable]
      | some target =>
          obtain ⟨targetTable, htargetTable⟩ := h _ _ htarget
          rw [relationshipOf?_of_known hsource htarget hsourceTable htargetTable]
          simp [hsourceTable, htargetTable, link, nameOf_eq hsourceTable, nameOf_eq htargetTable]

/-! ### What is shown after resolving and placing -/

/-- A diagram without relationships shows those that its foreign keys stand for. -/
theorem shownEdges_resolveForeignKeys (hedges : diagram.edges = []) (hpool : diagram.edgePool = [])
    (keys : List ForeignKey) :
    (diagram.resolveForeignKeys keys).shownEdges = diagram.relationshipsOf keys := by
  have hnext : diagram.nextEdge = 0 := by
    rw [Graph.nextEdge, hpool]
    rfl
  unfold Diagram.resolveForeignKeys Graph.shownEdges
  rw [Graph.foldl_connect, hedges, hpool, hnext, ← List.range_eq_range']
  exact Graph.filterMap_getElem?_range _

theorem shownEdges_autoLayout (grid : Grid) :
    (diagram.autoLayout grid).shownEdges = diagram.shownEdges := by
  obtain ⟨hedges, hpool⟩ := edges_autoLayout diagram grid
  have hedge? : (diagram.autoLayout grid).edge? = diagram.edge? := by
    funext number
    rw [Graph.edge?, hpool]
    rfl
  unfold Graph.shownEdges
  rw [hedges, hedge?]

theorem sameTables_resolveForeignKeys (diagram : Diagram) (keys : List ForeignKey) :
    SameTables diagram (diagram.resolveForeignKeys keys) := by
  unfold Diagram.resolveForeignKeys
  rw [Graph.foldl_connect]
  exact ⟨rfl, rfl, fun _ => rfl⟩

namespace SameTables

variable {other : Diagram}

theorem tables_eq (h : SameTables diagram other) : other.tables = diagram.tables := by
  unfold Diagram.tables Graph.nodes
  rw [List.map_filterMap, List.map_filterMap, h.members]
  exact congrArg (diagram.members.filterMap ·) (funext h.tables)

theorem map_columns (h : SameTables diagram other) (node : Nat) :
    (other.node? node).map Entity.columns = (diagram.node? node).map Entity.columns := by
  have hcolumns := congrArg (Option.map Prod.snd) (h.tables node)
  rwa [Option.map_map, Option.map_map] at hcolumns

theorem columnIndex? (h : SameTables diagram other) (node : Nat) (name : Text) :
    other.columnIndex? node name = diagram.columnIndex? node name := by
  have hbind := congrArg (Option.bind · fun columns : List Column =>
    columns.findIdx? fun column => column.name.lower = name.lower) (h.map_columns node)
  rw [Option.bind_map, Option.bind_map] at hbind
  exact hbind

theorem column? (h : SameTables diagram other) (node : Nat) (place : Option Nat) :
    other.column? node place = diagram.column? node place := by
  have hbind := congrArg (Option.bind · fun columns : List Column =>
    place.bind (columns[·]?)) (h.map_columns node)
  rw [Option.bind_map, Option.bind_map] at hbind
  exact hbind

end SameTables

end Diagram

end Diagrams.Er
