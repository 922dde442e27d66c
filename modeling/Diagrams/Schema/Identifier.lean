/-
Names in a schema script: how they are quoted, and lists of them.
-/
import Diagrams.Er.ForeignKey
import Diagrams.Text.Pieces

namespace Diagrams.Schema

/-- The characters that may be put around a name. -/
def isNameQuote (c : Char) : Bool :=
  c == '\x60' || c == '"' || c == '\x27' || c == '[' || c == ']'

/-- A name without its quotes, and without the schema in front of it. -/
def unquote (name : Text) : Text :=
  let bare := name.trim.strip isNameQuote
  match bare.afterLast? '.' with
  | some last => last.strip isNameQuote
  | none => bare

/-- An item of a list of names up to its first opening bracket.  Only the last line of the item
is looked at. -/
def withoutArguments (item : Text) : Text :=
  let lastLine := (item.reverse.takeWhile (· != '\n')).reverse
  item.take (item.length - lastLine.length) ++ lastLine.takeWhile (· != '(')

/-- The name in an item of a list, in front of a length or an order. -/
def listedName (item : Text) : Text :=
  unquote ((withoutArguments item.trim).words.head?.getD [])

/-- The names in a list with commas; empty ones are left out. -/
def identifierList (text : Text) : List Text :=
  ((text.splitWhere (· == ',')).map listedName).filter fun name => !name.isEmpty

/-- One foreign key for each of the listed columns, which refers to the column at the same place
in the other list, if there is one. -/
def foreignKeys (table columns target : Text) (targetColumns : Option Text) : List Er.ForeignKey :=
  let references := identifierList (targetColumns.getD [])
  (identifierList columns).zipIdx.map fun (column, index) =>
    { sourceTable := table, column, targetTable := unquote target
      targetColumn := references[index]? }

/-- Characters inside the brackets of a data type stand close to their neighbours. -/
def isCloseInType (left right : Char) : Bool :=
  left == '(' || left == ',' || right == '(' || right == ',' || right == ')'

/-- A data type in its normal spelling. -/
def normalizeType (type : Text) : Text := type.respaced isCloseInType

end Diagrams.Schema
