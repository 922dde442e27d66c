/-
Reading the members of a type, and the package of a source.
-/
import Diagrams.Code.Grammar
import Diagrams.Code.TypeName
import Diagrams.Uml.Class

namespace Diagrams.Code

/-- The package that a source names. -/
def packageName? (source : Text) : Option Text :=
  (Grammar.package.find? source).map (·.text .name)

/-- The visibility that a match notes; without a word it is that of the package. -/
def visibilityOf (found : Match Slot) : Uml.Visibility :=
  match found.text? .visibility with
  | some word => .ofWord word
  | none => .packageAccess

/-- Whether a match notes a modifier. -/
def hasModifier (found : Match Slot) (modifier : String) : Bool :=
  found.text? .firstModifier = some modifier.toList ||
    found.text? .secondModifier = some modifier.toList

/-- The field that a declaration declares. -/
def readField? (declaration : Text) : Option Uml.Field :=
  (Grammar.field.matchStart? declaration).bind fun found =>
    let type := found.text .type
    if reservedWords.contains type then none
    else some
      { name := found.text .name, type := normalizeType type, visibility := visibilityOf found
        isStatic := hasModifier found "static", isFinal := hasModifier found "final" }

/-- The parameters in a list, from left to right. -/
def readParameters (list : Text) : List Uml.Parameter :=
  (Grammar.parameter.findAll (Grammar.finalWord.replaceAll [] list)).map fun found =>
    { name := found.text .name, type := normalizeType (found.text .type) }

/-- The method that a declaration in the given type declares.  A constructor is none. -/
def readMethod? (declaration className : Text) : Option Uml.Method :=
  (Grammar.method.matchStart? declaration).bind fun found =>
    let name := found.text .name
    let type := found.text .type
    if name = className || reservedWords.contains type then none
    else some
      { name, returnType := normalizeType type,
        parameters := readParameters (found.text .parameters)
        visibility := visibilityOf found, isStatic := hasModifier found "static"
        isAbstract := hasModifier found "abstract" }

end Diagrams.Code
