/-
Classes of a class diagram: types with their fields and methods.
-/
import Diagrams.Graph

namespace Diagrams.Uml

/-- What a type is declared as. -/
inductive Kind
  | ordinary
  | interface
  | enumeration
  deriving DecidableEq, Repr

namespace Kind

/-- The word that declares a type of this kind. -/
def word : Kind → String
  | ordinary => "class"
  | interface => "interface"
  | enumeration => "enum"

/-- The kind that a word declares, in lower case. -/
def ofWord? (word : Text) : Option Kind :=
  [ordinary, interface, enumeration].find? fun kind => kind.word.toList = word

/-- The kind that a word declares, without regard to case and to blanks around it; if there is
none, the word that was looked for. -/
def ofKeyword (keyword : Text) : Except Text Kind :=
  let word := keyword.trim.lower
  match ofWord? word with
  | some kind => .ok kind
  | none => .error word

end Kind

/-- Who may use a member. -/
inductive Visibility
  | publicAccess
  | privateAccess
  | protectedAccess
  | packageAccess
  /-- A word that names no visibility. -/
  | unknown (word : Text)
  deriving DecidableEq, Repr

namespace Visibility

/-- The word for a visibility. -/
def word : Visibility → Text
  | publicAccess => "public".toList
  | privateAccess => "private".toList
  | protectedAccess => "protected".toList
  | packageAccess => "package".toList
  | unknown word => word

/-- The visibility that a word stands for. -/
def ofWord (word : Text) : Visibility :=
  ([publicAccess, privateAccess, protectedAccess, packageAccess].find?
    fun visibility => visibility.word = word).getD (unknown word)

/-- The sign of a visibility in a drawing.  An unknown one is drawn as that of the package. -/
def symbol : Visibility → String
  | publicAccess => "+"
  | privateAccess => "-"
  | protectedAccess => "#"
  | packageAccess => "~"
  | unknown _ => "~"

end Visibility

/-- A parameter of a method. -/
structure Parameter where
  /-- The name. -/
  name : Text
  /-- The type, in its normal spelling. -/
  type : Text
  deriving DecidableEq, Repr

namespace Parameter

/-- The parameter in a listing. -/
def text (parameter : Parameter) : String :=
  parameter.name.string ++ " : " ++ parameter.type.string

/-- The parameter in a message. -/
def summary (parameter : Parameter) : String :=
  "UMLParameter(name=" ++ parameter.name.string ++ ", type=" ++ parameter.type.string ++ ")"

end Parameter

/-- A field of a class. -/
structure Field where
  /-- The name. -/
  name : Text
  /-- The type, in its normal spelling. -/
  type : Text
  /-- Who may use it. -/
  visibility : Visibility := .packageAccess
  /-- Whether the class itself holds it. -/
  isStatic : Bool := false
  /-- Whether it keeps its first value. -/
  isFinal : Bool := false
  deriving DecidableEq, Repr

namespace Field

/-- The field in a listing. -/
def text (field : Field) : String :=
  field.visibility.symbol ++ " " ++ (if field.isStatic then "static " else "") ++
    (if field.isFinal then "final " else "") ++ field.name.string ++ " : " ++ field.type.string

/-- The field in a message. -/
def summary (field : Field) : String :=
  "UMLAttribute(name=" ++ field.name.string ++ ", type=" ++ field.type.string ++
    ", visibility=" ++ field.visibility.word.string ++ ")"

end Field

/-- A method of a class. -/
structure Method where
  /-- The name. -/
  name : Text
  /-- The type of the result, in its normal spelling. -/
  returnType : Text
  /-- The parameters, in order. -/
  parameters : List Parameter := []
  /-- Who may use it. -/
  visibility : Visibility := .packageAccess
  /-- Whether it belongs to the class itself. -/
  isStatic : Bool := false
  /-- Whether it is left to subclasses. -/
  isAbstract : Bool := false
  deriving DecidableEq, Repr

namespace Method

/-- The method in a listing.  A result of type void is not shown. -/
def text (method : Method) : String :=
  method.visibility.symbol ++ " " ++ (if method.isStatic then "static " else "") ++
    (if method.isAbstract then "abstract " else "") ++ method.name.string ++ "(" ++
    ", ".intercalate (method.parameters.map (·.text)) ++ ")" ++
    (if method.returnType.isEmpty || method.returnType = "void".toList then ""
      else " : " ++ method.returnType.string)

/-- The method in a message. -/
def summary (method : Method) : String :=
  "UMLMethod(name=" ++ method.name.string ++ ", returns=" ++ method.returnType.string ++
    ", params=" ++ toString method.parameters.length ++ ")"

end Method

/-- A type with its place in the drawing. -/
structure Class where
  /-- The name, without the package. -/
  name : Text
  /-- What the type is declared as. -/
  kind : Kind := .ordinary
  /-- The package that it belongs to. -/
  package : Option Text := none
  /-- The fields, in order. -/
  fields : List Field := []
  /-- The methods, in order. -/
  methods : List Method := []
  /-- Whether the type is only referred to and nowhere declared. -/
  isStub : Bool := false
  /-- How far to the right the type is drawn. -/
  x : Float := 0
  /-- How far down the type is drawn. -/
  y : Float := 0

instance : Named Class := ⟨Class.name⟩

namespace Class

/-- A type that is referred to but not declared. -/
def stub (name : Text) (kind : Kind) : Class := { name, kind, isStub := true }

/-- Add a field at the end. -/
def addField (owner : Class) (field : Field) : Class :=
  { owner with fields := owner.fields ++ [field] }

/-- Add a method at the end. -/
def addMethod (owner : Class) (method : Method) : Class :=
  { owner with methods := owner.methods ++ [method] }

/-- The name with the package in front. -/
def qualifiedName (type : Class) : Text :=
  match type.package with
  | some package => if package.isEmpty then type.name else package ++ '.' :: type.name
  | none => type.name

/-- The type in a message. -/
def summary (type : Class) : String :=
  "UMLClass(name=" ++ type.name.string ++ ", kind=" ++ type.kind.word ++ ", attributes=" ++
    toString type.fields.length ++ ", methods=" ++ toString type.methods.length ++ ")"

end Class

end Diagrams.Uml
