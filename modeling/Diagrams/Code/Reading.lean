/-
Reading a source of class declarations into a class diagram.

This takes three passes.  The first finds the heads of all declarations, at whatever depth, and
their bodies.  The second reads the members of each body.  The third adds the relationships, when
every declared type is known.
-/
import Diagrams.Code.Body
import Diagrams.Code.Lexeme
import Diagrams.Code.Member
import Diagrams.Log
import Diagrams.Text.Quoted
import Diagrams.Uml.TypeEdge

namespace Diagrams.Code

/-- What happens while a source is read. -/
inductive Event
  /-- The body of a type is not closed. -/
  | bodyUnclosed (type : Text)
  /-- A type takes over the name of another one. -/
  | typeRedeclared (type : Text)
  /-- A declaration that ends with a semicolon declares no member. -/
  | memberIgnored (type text : Text)
  /-- A stub was added. -/
  | stubAdded (stub : Uml.StubNote)
  /-- The source has been read. -/
  | finished (declarations stubs relationships : Nat)

/-- The notices of an event. -/
def Event.notices : Event → List Notice
  | bodyUnclosed type =>
    [⟨.debug, .codeReader,
      "Body of " ++ type.string ++ " is not closed, reading to end of input"⟩]
  | typeRedeclared type =>
    [⟨.debug, .registry,
      "Symbol '" ++ type.string ++ "' redeclared, registry slot overwritten"⟩]
  | memberIgnored type text =>
    [⟨.debug, .codeReader,
      "Ignoring member text in " ++ type.string ++ ": " ++ (Text.quoted (text.take 60)).string⟩]
  | stubAdded stub =>
    [⟨.debug, .registry, "Created stub for undeclared symbol '" ++ stub.name.string ++ "'"⟩,
      ⟨.debug, .inference,
        "Stub " ++ stub.kind.word ++ " '" ++ stub.name.string ++ "' created for " ++
          stub.source.string⟩]
  | finished declarations stubs relationships =>
    [⟨.info, .codeReader,
      "Parsed " ++ toString declarations ++ " declaration(s), " ++ toString stubs ++
        " stub(s), " ++ toString relationships ++ " relationship(s)"⟩]

/-- Where the types of a source are drawn: each one a step further right and down. -/
structure Diagonal where
  /-- Where the diagonal starts. -/
  offset : Float := 100
  /-- How far it is from one type to the next. -/
  step : Float := 50

/-- The place of the `count`-th type, in either direction. -/
def Diagonal.place (diagonal : Diagonal) (count : Nat) : Float :=
  diagonal.offset + Float.ofNat count * diagonal.step

/-- What stands in the body of a declared type. -/
structure Body where
  /-- The number of the type in the diagram. -/
  node : Nat
  /-- The text between its braces. -/
  text : Text

/-! ### Declarations -/

/-- What the first pass has found. -/
structure Declared where
  /-- The diagram with the declared types. -/
  diagram : Uml.Diagram
  /-- The bodies of the types, in order. -/
  bodies : List Body := []
  /-- The supertypes that are named. -/
  supertypes : List Uml.TypeEdge := []
  /-- The interfaces that are named. -/
  interfaces : List Uml.TypeEdge := []
  /-- What has happened. -/
  events : List Event := []

/-- The edges from a type to each of the types in a list. -/
def edgesFrom (source : Text) (list : Option Text) : List Uml.TypeEdge :=
  (typeList (list.getD [])).map fun target => { source, target }

/-- The kind of a type by the word that declares it. -/
def kindOf (found : Match Slot) : Uml.Kind :=
  (Uml.Kind.ofWord? (found.text .keyword)).getD .ordinary

/-- Add the type that a head declares. -/
def declare (package : Option Text) (diagonal : Option Diagonal) (state : Declared)
    (head : Match Slot) : Declared :=
  let name := head.text .name
  let node := state.diagram.nextNode
  let place := match diagonal with
    | some diagonal => diagonal.place (state.diagram.members.length + 1)
    | none => 0
  let redeclared := state.diagram.registry.overwrites name (some node)
  let (body, closed) := match Brackets.curly.body? ('\x7b' :: head.rest) with
    | some (body, _) => (body, true)
    | none => (head.rest, false)
  { diagram := state.diagram.insert { name, kind := kindOf head, package, x := place, y := place }
    bodies := state.bodies ++ [⟨node, body⟩]
    supertypes := state.supertypes ++ edgesFrom name (head.text? .supertypes)
    interfaces := state.interfaces ++ edgesFrom name (head.text? .interfaces)
    events := state.events ++ (if redeclared then [.typeRedeclared name] else []) ++
      (if closed then [] else [.bodyUnclosed name]) }

/-- Find all declared types in a source without comments. -/
def declarations (source title : Text) (diagonal : Option Diagonal) : Declared :=
  (Grammar.typeHead.findAll source).foldl (declare (packageName? source) diagonal)
    { diagram := .empty title }

/-! ### Members -/

/-- Read a declaration as a member of a type: a field or method, or else an event if it ends with
a semicolon. -/
def addMember (owner : Uml.Class × List Event) (declaration : Declaration) :
    Uml.Class × List Event :=
  let (type, events) := owner
  let text := Text.joined [' '] declaration.text.words
  let field? := if declaration.terminator = .semicolon then readField? text else none
  match field? with
  | some field => (type.addField field, events)
  | none =>
    match readMethod? text type.name with
    | some method => (type.addMethod method, events)
    | none =>
      if declaration.terminator = .semicolon then
        (type, events ++ [.memberIgnored type.name text])
      else owner

/-- Read the members in the body of a type. -/
def addMembers (type : Uml.Class) (body : Text) : Uml.Class × List Event :=
  (memberDeclarations (Grammar.annotationMark.replaceAll [' '] body)).foldl addMember (type, [])

/-- Read the members of one of the types of a diagram. -/
def fillBody (state : Uml.Diagram × List Event) (body : Body) : Uml.Diagram × List Event :=
  match state.1.node? body.node with
  | some type =>
    let (filled, events) := addMembers type body.text
    (state.1.modify body.node fun _ => filled, state.2 ++ events)
  | none => state

/-! ### The whole source -/

/-- A source that has been read. -/
structure Reading where
  /-- The diagram. -/
  diagram : Uml.Diagram
  /-- What happened, in order. -/
  events : List Event

/-- Read a source.  With a diagonal, the declared types are placed on it. -/
def read (source title : Text) (diagonal : Option Diagonal) : Reading :=
  let declared := declarations (blankLiterals source) title diagonal
  let (filled, memberEvents) := declared.bodies.foldl fillBody (declared.diagram, [])
  let (resolved, stubs) := filled.resolveTypeEdges declared.supertypes declared.interfaces
  let diagram := resolved.inferCompositions
  let declarationCount := declared.bodies.length
  { diagram
    events := declared.events ++ memberEvents ++ stubs.map .stubAdded ++
      [.finished declarationCount (diagram.members.length - declarationCount)
        diagram.edges.length] }

/-- The title of a diagram that has none of its own. -/
def defaultTitle : Text := "UML Diagram".toList

end Diagrams.Code
