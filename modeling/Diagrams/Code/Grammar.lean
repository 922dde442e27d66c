/-
The patterns of a source of class declarations.

Words are read as they are written.  A type is a dotted name with optional type arguments, array
brackets and dots for a variable number of arguments; type arguments end at the first closing
angle bracket that lets the rest match.
-/
import Diagrams.Pattern.Search

namespace Diagrams.Code

/-- The stretches that the patterns of a source note. -/
inductive Slot
  /-- The word that declares a type. -/
  | keyword
  /-- The name of a type or member. -/
  | name
  /-- The supertypes of a type. -/
  | supertypes
  /-- The interfaces of a type. -/
  | interfaces
  /-- The visibility of a member. -/
  | visibility
  /-- The first modifier of a member. -/
  | firstModifier
  /-- The second modifier of a member. -/
  | secondModifier
  /-- The type of a member or parameter. -/
  | type
  /-- The parameters of a method. -/
  | parameters
  deriving DecidableEq, Repr

namespace Grammar

open Pattern

/-- One of some words. -/
def wordOf (words : List String) : Pattern Slot := oneOf (words.map exactly)

/-- One of some words, noted, with a gap after it; it may be missing. -/
def optionalWord (slot : Slot) (words : List String) : Pattern Slot :=
  opt (all [noted slot (wordOf words), gap])

/-- The characters of a dotted name. -/
def isDotted (c : Char) : Bool := isWordChar c || c == '.'

/-- The characters of the name of a type. -/
def isTypeName (c : Char) : Bool := isDotted c || c == '$'

/-- The characters of type arguments. -/
def isTypeArgument (c : Char) : Bool :=
  isTypeName c || isBlank c || c == '<' || c == '>' || c == '[' || c == ']' || c == '?' ||
    c == ',' || c == '&'

/-- A type. -/
def type : Pattern Slot :=
  all [atLeastOne isTypeName,
    opt (all [spaces, lit '<', many .lazy isTypeArgument, lit '>']),
    star (all [spaces, lit '[', spaces, lit ']']),
    opt (all [spaces, exactly "..."])]

/-- The package that a source belongs to. -/
def package : Pattern Slot :=
  all [lineStart, spaces, exactly "package", gap, noted .name (atLeastOne isDotted), spaces,
    lit ';']

/-- The words that may stand in front of a type declaration. -/
def typeModifiers : List String :=
  ["public", "private", "protected", "abstract", "final", "static", "sealed", "non-sealed",
    "strictfp"]

/-- The characters in a list of types at the head of a declaration. -/
def isHeadChar (c : Char) : Bool := c != '\x7b' && c != ';'

/-- The head of a type declaration, up to the brace that opens its body. -/
def typeHead : Pattern Slot :=
  all [notBehind fun c => isDotted c || c == '@',
    star (all [wordOf typeModifiers, gap]),
    noted .keyword (wordOf ["class", "interface", "enum"]), gap, noted .name name,
    opt (all [spaces, lit '<', many .lazy isHeadChar, lit '>']),
    opt (all [gap, exactly "extends", gap, noted .supertypes (lazyAtLeastOne isHeadChar)]),
    opt (all [gap, exactly "implements", gap, noted .interfaces (lazyAtLeastOne isHeadChar)]),
    opt (all [gap, exactly "permits", gap, lazyAtLeastOne isHeadChar]),
    spaces, lit '\x7b']

/-- The visibility of a member. -/
def visibility : Pattern Slot :=
  optionalWord .visibility ["public", "private", "protected"]

/-- The modifiers of a field. -/
def fieldModifiers : List String := ["static", "final", "transient", "volatile"]

/-- A field with its value. -/
def field : Pattern Slot :=
  all [visibility, optionalWord .firstModifier fieldModifiers,
    optionalWord .secondModifier fieldModifiers, noted .type type, gap, noted .name name,
    opt (all [spaces, lit '=', spaces, atLeastOne fun _ => true]), finish]

/-- The modifiers of a method. -/
def methodModifiers : List String :=
  ["static", "abstract", "final", "synchronized", "native", "default"]

/-- The head of a method. -/
def method : Pattern Slot :=
  all [visibility, optionalWord .firstModifier methodModifiers,
    optionalWord .secondModifier methodModifiers,
    opt (all [lit '<', many .lazy (fun c => c != '(' && c != ')'), lit '>', gap]),
    noted .type type, gap, noted .name name, spaces,
    lit '(', noted .parameters (many .greedy (· != ')')), lit ')',
    opt (all [spaces, exactly "throws", gap,
      atLeastOne fun c => isDotted c || c == ',' || isBlank c]),
    finish]

/-- A parameter of a method, with the comma after it. -/
def parameter : Pattern Slot :=
  all [noted .type type, gap, noted .name name, spaces, oneOf [lit ',', finish]]

/-- The word for a parameter that keeps its value. -/
def finalWord : Pattern Slot := all [wordEdge, exactly "final", gap]

/-- An annotation with its arguments. -/
def annotationMark : Pattern Slot :=
  all [lit '@', atLeastOne isDotted,
    opt (all [spaces, lit '(', many .greedy (fun c => c != '(' && c != ')'), lit ')'])]

end Grammar

/-- The words that never name the type of a member. -/
def reservedWords : List Text :=
  ["return", "new", "throw", "else", "case", "package", "import", "class", "interface", "enum",
    "extends", "implements", "if", "for", "while", "switch", "try", "catch", "do",
    "synchronized"].map String.toList

end Diagrams.Code
