/-
Entity-relationship diagrams as JSON documents.
-/
import Diagrams.Er.Diagram
import Diagrams.Json

namespace Diagrams.Er

/-- A column as a document. -/
def Column.document (column : Column) : Json :=
  .object [("name", .text column.name), ("type", .text column.type),
    ("isPK", .bool column.isPrimaryKey), ("isFK", .bool column.isForeignKey),
    ("referencedTable", .ofText? column.referencedTable),
    ("referencedColumn", .ofText? column.referencedColumn), ("nullable", .bool column.isNullable)]

/-- A table as a document. -/
def Entity.document (entity : Entity) : Json :=
  .object [("name", .text entity.name), ("attributes", .array (entity.columns.map (·.document))),
    ("x", .number entity.x), ("y", .number entity.y)]

namespace Diagram

/-- A relationship as a document. -/
def edgeDocument (diagram : Diagram) (edge : Edge Relationship) : Json :=
  let columnName (entity : Nat) (index : Option Nat) : Json :=
    .ofText? ((diagram.column? entity index).map (·.name))
  .object [("name", .text edge.label.name), ("source", .text (diagram.nameOf edge.source)),
    ("target", .text (diagram.nameOf edge.target)), ("type", .ofString edge.label.cardinality.word),
    ("cardinality", .ofString edge.label.cardinality.symbol),
    ("sourceAttribute", columnName edge.source edge.label.sourceColumn),
    ("targetAttribute", columnName edge.target edge.label.targetColumn)]

/-- A diagram as a document. -/
def document (diagram : Diagram) : Json :=
  .object [("name", .text diagram.title),
    ("entities", .array (diagram.nodes.map (·.document))),
    ("relationships", .array (diagram.shownEdges.map diagram.edgeDocument))]

end Diagram

end Diagrams.Er
