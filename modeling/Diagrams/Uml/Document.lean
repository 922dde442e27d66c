/-
Class diagrams as JSON documents.
-/
import Diagrams.Json
import Diagrams.Uml.Diagram

namespace Diagrams.Uml

/-- A parameter as a document. -/
def Parameter.document (parameter : Parameter) : Json :=
  .object [("name", .text parameter.name), ("type", .text parameter.type)]

/-- A field as a document. -/
def Field.document (field : Field) : Json :=
  .object [("name", .text field.name), ("type", .text field.type),
    ("visibility", .text field.visibility.word), ("isStatic", .bool field.isStatic),
    ("isFinal", .bool field.isFinal)]

/-- A method as a document. -/
def Method.document (method : Method) : Json :=
  .object [("name", .text method.name), ("returnType", .text method.returnType),
    ("visibility", .text method.visibility.word), ("isStatic", .bool method.isStatic),
    ("isAbstract", .bool method.isAbstract),
    ("parameters", .array (method.parameters.map (·.document)))]

/-- A type as a document. -/
def Class.document (type : Class) : Json :=
  .object [("name", .text type.name), ("kind", .ofString type.kind.word),
    ("package", .ofText? type.package), ("stub", .bool type.isStub),
    ("attributes", .array (type.fields.map (·.document))),
    ("methods", .array (type.methods.map (·.document))),
    ("x", .number type.x), ("y", .number type.y)]

namespace Diagram

/-- A relationship as a document. -/
def edgeDocument (diagram : Diagram) (edge : Edge Relationship) : Json :=
  .object [("source", .text (diagram.nameOf edge.source)),
    ("target", .text (diagram.nameOf edge.target)), ("type", .ofString edge.label.kind.capitals),
    ("sourceLabel", .ofText? edge.label.sourceLabel),
    ("targetLabel", .ofText? edge.label.targetLabel)]

/-- A diagram as a document. -/
def document (diagram : Diagram) : Json :=
  .object [("name", .text diagram.title),
    ("classes", .array (diagram.nodes.map (·.document))),
    ("relationships", .array (diagram.shownEdges.map diagram.edgeDocument))]

end Diagram

end Diagrams.Uml
