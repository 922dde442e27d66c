/-
JSON documents and their indented text.

Texts are written with all printable and unprintable characters as they are, except the double
quote, the backslash and the controls below the space.
-/
import Diagrams.Decimal.Format
import Diagrams.Text.Quoted

namespace Diagrams

/-- A JSON document.  The fields of an object keep their order. -/
inductive Json
  | null
  | bool (value : Bool)
  | number (value : Float)
  | text (value : Text)
  | array (items : List Json)
  | object (fields : List (String × Json))

namespace Json

/-- A text, or null where there is none. -/
def ofText? : Option Text → Json
  | none => null
  | some value => text value

/-- A string as a document. -/
def ofString (value : String) : Json := text value.toList

/-- How one character is written inside a text. -/
def escaped (c : Char) : Text :=
  if c = '"' || c = '\\' then ['\\', c]
  else if c = '\n' then ['\\', 'n']
  else if c = '\r' then ['\\', 'r']
  else if c = '\t' then ['\\', 't']
  else if c = '\x08' then ['\\', 'b']
  else if c = '\x0c' then ['\\', 'f']
  else if c.toNat < 0x20 then '\\' :: 'u' :: Text.hexDigits 4 c.toNat
  else [c]

/-- A text between double quotes. -/
def quote (value : Text) : Text := '"' :: (value.flatMap escaped ++ ['"'])

/-- The line break in front of a line that is indented by `depth` steps. -/
def newline (depth : Nat) : Text := '\n' :: List.replicate (2 * depth) ' '

mutual

/-- The text of a document that stands `depth` steps deep. -/
def render (depth : Nat) : Json → Text
  | null => "null".toList
  | bool true => "true".toList
  | bool false => "false".toList
  | number value => (Decimal.ofFloat .document value).toList
  | text value => quote value
  | array [] => ['[', ']']
  | array (item :: items) =>
    '[' :: (newline (depth + 1) ++ render (depth + 1) item ++
      renderItems (depth + 1) items ++ newline depth ++ [']'])
  | object [] => ['\x7b', '\x7d']
  | object (field :: fields) =>
    '\x7b' :: (newline (depth + 1) ++ renderField (depth + 1) field ++
      renderFields (depth + 1) fields ++ newline depth ++ ['\x7d'])

/-- The items of an array after its first, each with the comma in front of it. -/
def renderItems (depth : Nat) : List Json → Text
  | [] => []
  | item :: items => ',' :: (newline depth ++ render depth item ++ renderItems depth items)

/-- One field of an object. -/
def renderField (depth : Nat) : String × Json → Text
  | (key, value) => quote key.toList ++ ':' :: ' ' :: render depth value

/-- The fields of an object after its first, each with the comma in front of it. -/
def renderFields (depth : Nat) : List (String × Json) → Text
  | [] => []
  | field :: fields =>
    ',' :: (newline depth ++ renderField depth field ++ renderFields depth fields)

end

/-- The text of a document, two spaces per level. -/
def pretty (document : Json) : Text := render 0 document

end Json

end Diagrams
