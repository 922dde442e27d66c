/-
Sources that are written out from declarations.

A source is written like the body of a type: fields, methods and declarations of further types, in
any order and with any blanks between them, the declarations with bodies of their own.  `Items`
holds what is written and `Items.text` writes it; `Items.classes` and the edges after it say what it
stands for, told from the declarations alone and not from how a source is read.

What makes such sources readable is said at the end.  Names are none of the words of the language,
type arguments are closed, and blocks close their braces and hold nothing that hides one.
-/
import Diagrams.Code.Reading
import Diagrams.Proofs.Brackets
import Diagrams.Proofs.Text.Words
import Diagrams.Proofs.Uml.Numbered

namespace Diagrams.Code.Written

/-- What stands between the items of a list. -/
def separator : Text := [',', ' ']

/-- A type as the head of a declaration names it. -/
structure TypeName where
  /-- Its name. -/
  name : Text
  /-- What stands between its angle brackets, if there are any. -/
  arguments : Option Text := none

/-- The name with its arguments. -/
def TypeName.text (type : TypeName) : Text :=
  type.name ++
    match type.arguments with
    | some arguments => '<' :: (arguments ++ ['>'])
    | none => []

/-- Pairs of square brackets. -/
def squares : Nat → Text
  | 0 => []
  | n + 1 => '[' :: ']' :: squares n

/-- The type of a member: a type, or arrays of it. -/
structure MemberType where
  /-- The type. -/
  base : TypeName
  /-- How many pairs of square brackets follow. -/
  dimensions : Nat := 0

/-- The type with its brackets. -/
def MemberType.text (type : MemberType) : Text := type.base.text ++ squares type.dimensions

/-- The words for a visibility. -/
def visibilityWords : Uml.Visibility → List String
  | .publicAccess => ["public"]
  | .privateAccess => ["private"]
  | .protectedAccess => ["protected"]
  | _ => []

/-- A field. -/
structure Field where
  /-- Who may use it. -/
  visibility : Uml.Visibility := .packageAccess
  /-- Whether the class itself holds it. -/
  isStatic : Bool := false
  /-- Whether it keeps its first value. -/
  isFinal : Bool := false
  /-- Its type. -/
  type : MemberType
  /-- Its name. -/
  name : Text

/-- The modifiers of a field. -/
def Field.modifiers (field : Field) : List String :=
  (if field.isStatic then ["static"] else []) ++ if field.isFinal then ["final"] else []

/-- The words in front of the type of a field. -/
def Field.words (field : Field) : List String := visibilityWords field.visibility ++ field.modifiers

/-- The declaration of a field, without its semicolon. -/
def Field.text (field : Field) : Text :=
  spaced field.words ++ (field.type.text ++ ' ' :: field.name)

/-- A parameter. -/
structure Parameter where
  /-- Its type. -/
  type : MemberType
  /-- Its name. -/
  name : Text

/-- The declaration of a parameter. -/
def Parameter.text (parameter : Parameter) : Text := parameter.type.text ++ ' ' :: parameter.name

/-- A method. -/
structure Method where
  /-- Who may use it. -/
  visibility : Uml.Visibility := .packageAccess
  /-- Whether it belongs to the class itself. -/
  isStatic : Bool := false
  /-- Whether it is left to subclasses. -/
  isAbstract : Bool := false
  /-- The type of its result. -/
  type : MemberType
  /-- Its name. -/
  name : Text
  /-- Its parameters. -/
  parameters : List Parameter := []
  /-- What stands in its block, if it has one. -/
  block : Option Text := none

/-- The modifiers of a method. -/
def Method.modifiers (method : Method) : List String :=
  (if method.isStatic then ["static"] else []) ++ if method.isAbstract then ["abstract"] else []

/-- The words in front of the type of a method. -/
def Method.words (method : Method) : List String :=
  visibilityWords method.visibility ++ method.modifiers

/-- The parameters of a method in a list. -/
def Method.parameterList (method : Method) : Text :=
  Text.joined separator (method.parameters.map Parameter.text)

/-- The declaration of a method, without what ends it. -/
def Method.text (method : Method) : Text :=
  spaced method.words ++
    (method.type.text ++ ' ' :: (method.name ++ '(' :: (method.parameterList ++ [')'])))

/-- What ends the declaration of a method: a block or a semicolon. -/
def Method.ending (method : Method) : Text :=
  match method.block with
  | some block => ' ' :: '\x7b' :: (block ++ ['\x7d'])
  | none => [';']

/-- The head of the declaration of a type. -/
structure Head where
  /-- The words in front. -/
  modifiers : List String := []
  /-- What the type is declared as. -/
  kind : Uml.Kind := .ordinary
  /-- Its name. -/
  name : Text
  /-- The supertypes. -/
  supertypes : List TypeName := []
  /-- The interfaces. -/
  interfaces : List TypeName := []

/-- Types in a list. -/
def typeNames (types : List TypeName) : Text := Text.joined separator (types.map TypeName.text)

/-- A word and the types after it; nothing if there are none. -/
def clause (word : String) (types : List TypeName) : Text :=
  if types.isEmpty then [] else ' ' :: (spaced [word] ++ typeNames types)

/-- The head up to the space in front of its body. -/
def Head.text (head : Head) : Text :=
  spaced head.modifiers ++ (spaced [head.kind.word] ++ (head.name ++
    (clause "extends" head.supertypes ++ clause "implements" head.interfaces)))

/-- What stands in the body of a type or in a source, each with the blanks in front of it. -/
inductive Items
  /-- The blanks at the end. -/
  | done (gap : Text)
  /-- A field first. -/
  | field (gap : Text) (field : Field) (others : Items)
  /-- A method first. -/
  | method (gap : Text) (method : Method) (others : Items)
  /-- A type with its body first. -/
  | nested (gap : Text) (head : Head) (inside others : Items)

namespace Items

/-- The items as they are written. -/
def text : Items → Text
  | done gap => gap
  | field gap first others => gap ++ (first.text ++ ';' :: others.text)
  | method gap first others => gap ++ (first.text ++ (first.ending ++ others.text))
  | nested gap head inside others =>
    gap ++ (head.text ++ ' ' :: '\x7b' :: (inside.text ++ '\x7d' :: others.text))

end Items

/-! ### What a source stands for -/

/-- The field that a written field stands for. -/
def Field.meaning (field : Field) : Uml.Field :=
  { name := field.name, type := field.type.text, visibility := field.visibility
    isStatic := field.isStatic, isFinal := field.isFinal }

/-- The parameter that a written parameter stands for. -/
def Parameter.meaning (parameter : Parameter) : Uml.Parameter :=
  { name := parameter.name, type := parameter.type.text }

/-- The method that a written method stands for. -/
def Method.meaning (method : Method) : Uml.Method :=
  { name := method.name, returnType := method.type.text
    parameters := method.parameters.map Parameter.meaning, visibility := method.visibility
    isStatic := method.isStatic, isAbstract := method.isAbstract }

namespace Items

/-- The fields of the type whose body this is, in order. -/
def fields : Items → List Uml.Field
  | done _ => []
  | field _ first others => first.meaning :: others.fields
  | method _ _ others => others.fields
  | nested _ _ _ others => others.fields

/-- The methods of the type whose body this is, in order. -/
def methods : Items → List Uml.Method
  | done _ => []
  | field _ _ others => others.methods
  | method _ first others => first.meaning :: others.methods
  | nested _ _ _ others => others.methods

/-- The declared types with their bodies, at any depth: a type comes in front of those in its
body. -/
def declared : Items → List (Head × Items)
  | done _ => []
  | field _ _ others => others.declared
  | method _ _ others => others.declared
  | nested _ head inside others => (head, inside) :: (inside.declared ++ others.declared)

end Items

/-- The position of the type with a number, in either direction. -/
def position (diagonal : Option Diagonal) (number : Nat) : Float :=
  match diagonal with
  | some diagonal => diagonal.place (number + 1)
  | none => 0

/-- The class that a declaration stands for, without its members. -/
def Head.bare (package : Option Text) (place : Float) (head : Head) : Uml.Class :=
  { name := head.name, kind := head.kind, package, x := place, y := place }

/-- The class that a declaration stands for. -/
def classOf (package : Option Text) (place : Float) (head : Head) (inside : Items) : Uml.Class :=
  { head.bare package place with fields := inside.fields, methods := inside.methods }

namespace Items

variable (items : Items)

/-- The names of the declared types. -/
def names : List Text := items.declared.map fun (head, _) => head.name

/-- The supertypes that are declared nowhere. -/
def missingSupertypes : List Text :=
  Uml.newNames items.names (items.declared.flatMap fun (head, _) =>
    head.supertypes.map TypeName.name)

/-- The interfaces that are declared nowhere and are no supertypes. -/
def missingInterfaces : List Text :=
  Uml.newNames (items.names ++ items.missingSupertypes)
    (items.declared.flatMap fun (head, _) => head.interfaces.map TypeName.name)

/-- The names of all types, declared and missing. -/
def allNames : List Text := items.names ++ (items.missingSupertypes ++ items.missingInterfaces)

/-- The classes: the declared types, and stubs for the missing ones. -/
def classes (package : Option Text) (diagonal : Option Diagonal) : List Uml.Class :=
  (items.declared.zipIdx.map fun ((head, inside), number) =>
    classOf package (position diagonal number) head inside) ++
  (items.missingSupertypes.map (Uml.Class.stub · .ordinary) ++
    items.missingInterfaces.map (Uml.Class.stub · .interface))

/-- The edges from each declared type to the types that one of its clauses names. -/
def clauseEdges (kind : Uml.RelationshipKind) (types : Head → List TypeName) :
    List (Edge Uml.Relationship) :=
  items.declared.zipIdx.flatMap fun ((head, _), number) =>
    (types head).map fun type =>
      { source := number, target := items.allNames.idxOf type.name, label := { kind } }

/-- The compositions: one for each field whose type has the name of a class and is no common one. -/
def compositions : List (Edge Uml.Relationship) :=
  items.declared.zipIdx.flatMap fun ((_, inside), number) =>
    inside.fields.filterMap fun field =>
      if !Uml.isCommonType field.type && items.allNames.contains field.type then
        some
          { source := number, target := items.allNames.idxOf field.type
            label := { kind := .composition, targetLabel := some ['1'] } }
      else none

/-- The edges: supertypes first, then interfaces, then the types of fields. -/
def edges : List (Edge Uml.Relationship) :=
  items.clauseEdges .inheritance Head.supertypes ++
    (items.clauseEdges .implementation Head.interfaces ++ items.compositions)

end Items

/-! ### What may be written -/

/-- The words of the language that no name is. -/
def languageWords : List String :=
  ["return", "new", "throw", "else", "case", "package", "import", "class", "interface", "enum",
    "extends", "implements", "permits", "if", "for", "while", "switch", "try", "catch", "do",
    "public", "private", "protected", "abstract", "final", "static", "sealed", "strictfp",
    "transient", "volatile", "synchronized", "native", "default"]

/-- The words that declare a type. -/
def declaringWords : List String := ["class", "interface", "enum"]

/-- A name that is no word of the language. -/
structure IsName (name : Text) : Prop where
  identifier : isIdentifier name = true
  noWord : ∀ word ∈ languageWords, name ≠ word.toList

instance (name : Text) : Decidable (IsName name) :=
  decidable_of_iff (isIdentifier name = true ∧ ∀ word ∈ languageWords, name ≠ word.toList)
    ⟨fun h => ⟨h.1, h.2⟩, fun h => ⟨h.identifier, h.noWord⟩⟩

/-- Type arguments: names, commas, spaces, and closed angle brackets. -/
inductive IsArguments : Text → Prop
  | nil : IsArguments []
  | plain {c : Char} {rest : Text} (allowed : isWordChar c = true ∨ c = ',' ∨ c = ' ')
      (tail : IsArguments rest) : IsArguments (c :: rest)
  | group {inside rest : Text} (inner : IsArguments inside) (tail : IsArguments rest) :
      IsArguments ('<' :: (inside ++ '>' :: rest))

/-- A type in the head of a declaration has arguments without words of the language. -/
structure TypeName.WellFormed (type : TypeName) : Prop where
  name : IsName type.name
  arguments : ∀ arguments ∈ type.arguments, IsArguments arguments ∧ Avoids languageWords arguments

/-- Types with a comma and a space between neighbours. -/
inductive IsTypeList : Text → Prop
  | plain {name : Text} (dimensions : Nat) (isName : IsName name) :
      IsTypeList (name ++ squares dimensions)
  | generic {name arguments : Text} (dimensions : Nat) (isName : IsName name)
      (inside : IsTypeList arguments) :
      IsTypeList (name ++ '<' :: (arguments ++ '>' :: squares dimensions))
  | append {first others : Text} (head : IsTypeList first) (tail : IsTypeList others) :
      IsTypeList (first ++ (separator ++ others))

/-- The type of a member has types as its arguments. -/
structure MemberType.WellFormed (type : MemberType) : Prop where
  name : IsName type.base.name
  arguments : ∀ arguments ∈ type.base.arguments, IsTypeList arguments

/-- A visibility for which there is a word, or none is needed. -/
def IsKnown (visibility : Uml.Visibility) : Prop := ∀ word, visibility ≠ .unknown word

/-- A field has a type and a name. -/
structure Field.WellFormed (field : Field) : Prop where
  visibility : IsKnown field.visibility
  type : field.type.WellFormed
  name : IsName field.name

/-- A parameter has a type and a name. -/
structure Parameter.WellFormed (parameter : Parameter) : Prop where
  type : parameter.type.WellFormed
  name : IsName parameter.name

/-- The character starts no literal, no comment and no annotation, and hides no other. -/
structure IsOpen (c : Char) : Prop where
  quote : Brackets.isQuote c = false
  slash : c ≠ '\\'
  comment : c ≠ '/'
  mark : c ≠ '@'

instance (c : Char) : Decidable (IsOpen c) :=
  decidable_of_iff (Brackets.isQuote c = false ∧ c ≠ '\\' ∧ c ≠ '/' ∧ c ≠ '@')
    ⟨fun h => ⟨h.1, h.2.1, h.2.2.1, h.2.2.2⟩, fun h => ⟨h.quote, h.slash, h.comment, h.mark⟩⟩

/-- The braces of the text are closed. -/
abbrev IsClosed (text : Text) : Prop := Nested .curly Brackets.isQuote (fun _ => false) text

/-- The text of a block: its braces are closed, and no character or word hides or declares
anything. -/
structure IsBlock (block : Text) : Prop where
  balanced : IsClosed block
  isOpen : ∀ c ∈ block, IsOpen c
  words : Avoids declaringWords block

/-- A method has types and names, and a block that can be passed over. -/
structure Method.WellFormed (method : Method) : Prop where
  visibility : IsKnown method.visibility
  type : method.type.WellFormed
  name : IsName method.name
  parameters : ∀ parameter ∈ method.parameters, parameter.WellFormed
  block : ∀ block ∈ method.block, IsBlock block

/-- A head has words that may stand in front of it, and names. -/
structure Head.WellFormed (head : Head) : Prop where
  modifiers : ∀ modifier ∈ head.modifiers, modifier ∈ Grammar.typeModifiers
  name : IsName head.name
  supertypes : ∀ type ∈ head.supertypes, type.WellFormed
  interfaces : ∀ type ∈ head.interfaces, type.WellFormed

/-- Well-formed items with blanks between them.  No method has the name of the type that it is
in. -/
inductive Items.WellFormed : (owner : Option Text) → Items → Prop
  | done {owner : Option Text} {gap : Text} (blank : ∀ c ∈ gap, isBlank c = true) :
      WellFormed owner (done gap)
  | field {owner : Option Text} {gap : Text} {field : Field} {others : Items}
      (blank : ∀ c ∈ gap, isBlank c = true) (first : field.WellFormed)
      (tail : WellFormed owner others) : WellFormed owner (.field gap field others)
  | method {owner : Option Text} {gap : Text} {method : Method} {others : Items}
      (blank : ∀ c ∈ gap, isBlank c = true) (first : method.WellFormed)
      (noConstructor : ∀ name ∈ owner, method.name ≠ name) (tail : WellFormed owner others) :
      WellFormed owner (.method gap method others)
  | nested {owner : Option Text} {gap : Text} {head : Head} {inside others : Items}
      (blank : ∀ c ∈ gap, isBlank c = true) (first : head.WellFormed)
      (body : WellFormed (some head.name) inside) (tail : WellFormed owner others) :
      WellFormed owner (.nested gap head inside others)

end Diagrams.Code.Written
