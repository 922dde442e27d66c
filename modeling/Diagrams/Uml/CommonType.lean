/-
Types that are never drawn as classes: those of the language itself, and the common types of its
library.
-/
import Diagrams.Text.Basic

namespace Diagrams.Uml

/-- The types that are part of the language. -/
def primitiveTypes : List Text :=
  ["int", "boolean", "double", "float", "long", "short", "byte", "char"].map String.toList

/-- The parts of a spelling by which a common library type is known. -/
def commonFragments : List Text :=
  ["String", "Integer", "Boolean", "Double", "Float", "Long", "Short", "Byte", "Object", "List",
    "Map", "Set", "Collection", "ArrayList", "HashMap", "HashSet"].map String.toList

/-- Whether a type is primitive, or has the name of a common library type somewhere in its
spelling. -/
def isCommonType (type : Text) : Bool :=
  primitiveTypes.contains type || commonFragments.any fun fragment => fragment.occursIn type

end Diagrams.Uml
