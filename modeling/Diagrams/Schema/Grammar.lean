/-
The patterns of a schema script.

Words are read without regard to case.  A name may be quoted with backticks, double quotes or
square brackets and may have a schema in front of it; opening and closing quotes need not agree,
and either may be missing.
-/
import Diagrams.Pattern.Search

namespace Diagrams.Schema

/-- The stretches that the patterns of a schema script note. -/
inductive Slot
  /-- The name of a table or column. -/
  | name
  /-- The data type of a column. -/
  | type
  /-- What stands after the type of a column or the name of a changed table. -/
  | options
  /-- The columns of a key. -/
  | columns
  /-- The table that a foreign key refers to. -/
  | target
  /-- The columns that a foreign key refers to. -/
  | targetColumns
  deriving DecidableEq, Repr

namespace Grammar

open Pattern

/-- Words with gaps between them. -/
def phrase (words : List String) : Pattern Slot :=
  all ((words.map keyword).intersperse gap)

/-- Words, each with a gap after it. -/
def leading (words : List String) : Pattern Slot :=
  all (words.map fun word => seq (keyword word) gap)

/-- An opening quote that may be missing. -/
def openQuote : Pattern Slot := opt (one fun c => c == '\x60' || c == '"' || c == '[')

/-- A closing quote that may be missing. -/
def closeQuote : Pattern Slot := opt (one fun c => c == '\x60' || c == '"' || c == ']')

/-- A name with its quotes and with the schema in front of it, around the given pattern. -/
def qualified (last : Pattern Slot) : Pattern Slot :=
  all [openQuote, opt (all [name, closeQuote, lit '.', openQuote]), last, closeQuote]

/-- A name with its quotes, noted without them. -/
def identifier (slot : Slot) : Pattern Slot := qualified (noted slot name)

/-- A list in round brackets that is not empty. -/
def columnList (slot : Slot) : Pattern Slot :=
  all [lit '(', noted slot (atLeastOne (· != ')')), lit ')']

/-- The condition that a table need not exist yet. -/
def ifNotExists : Pattern Slot := opt (leading ["IF", "NOT", "EXISTS"])

/-- The index method in front of a list of columns. -/
def indexMethod : Pattern Slot := opt (all [leading ["USING"], name, spaces])

/-- The name of an index in front of a list of columns. -/
def indexName : Pattern Slot := opt (all [name, spaces])

/-- What a foreign key refers to. -/
def references : Pattern Slot :=
  all [leading ["REFERENCES"], identifier .target, spaces, opt (columnList .targetColumns)]

/-! ### Statements -/

/-- A table definition up to the bracket that opens its list. -/
def createTable : Pattern Slot :=
  all [spaces, leading ["CREATE"],
    opt (all [opt (oneOf [leading ["GLOBAL"], leading ["LOCAL"]]),
      keyword "TEMP", opt (keyword "ORARY"), gap]),
    leading ["TABLE"], ifNotExists, identifier .name, spaces, lit '(']

/-- The start of a table definition with up to three unknown words in it. -/
def looseTable : Pattern Slot :=
  all [leading ["CREATE"], lazyUpTo (all [name, gap]) 3, leading ["TABLE"], ifNotExists,
    identifier .name]

/-- A change to a table. -/
def alterTable : Pattern Slot :=
  all [spaces, leading ["ALTER", "TABLE"], opt (leading ["ONLY"]), identifier .name, gap,
    noted .options (many .greedy fun _ => true), finish]

/-! ### Parts of a table definition -/

/-- The name of a constraint. -/
def constraintName : Pattern Slot :=
  all [spaces, opt (all [leading ["CONSTRAINT"], qualified name, gap])]

/-- A primary key as a part of its own. -/
def primaryKeyPart : Pattern Slot :=
  all [constraintName, phrase ["PRIMARY", "KEY"], spaces, indexName, indexMethod,
    columnList .columns]

/-- A foreign key as a part of its own. -/
def foreignKeyPart : Pattern Slot :=
  all [constraintName, phrase ["FOREIGN", "KEY"], spaces, indexName, columnList .columns, spaces,
    references]

/-- A constraint that says nothing about keys.  An index has a list of columns, so that a column
may be called `key` or `index`; a digit or quote after the bracket is the argument of a type. -/
def otherConstraint : Pattern Slot :=
  all [constraintName,
    oneOf [
      all [oneOf [keyword "CHECK", keyword "EXCLUDE"], wordEdge],
      all [
        oneOf [
          all [keyword "UNIQUE", opt (all [gap, oneOf [keyword "KEY", keyword "INDEX"]])],
          all [opt (oneOf [leading ["FULLTEXT"], leading ["SPATIAL"]]),
            oneOf [keyword "KEY", keyword "INDEX"]]],
        spaces, opt (all [openQuote, name, closeQuote, spaces]), indexMethod, lit '(',
        notAhead (all [spaces, one fun c => isDecimalDigit c || c == '\x27'])]]]

/-- A column with its type and all that follows. -/
def column : Pattern Slot :=
  all [identifier .name, gap,
    noted .type (all [one fun c => isLatinLetter c || c == '_', many .greedy isWordChar,
      opt (all [gap, oneOf [keyword "PRECISION", keyword "VARYING"]]),
      opt (all [spaces, lit '(', many .greedy (· != ')'), lit ')']),
      opt (all [spaces, lit '[', spaces, lit ']'])]),
    noted .options (many .greedy fun _ => true), finish]

/-- A column with its type, whose arguments need not be closed. -/
def looseColumn : Pattern Slot :=
  all [identifier .name, gap,
    noted .type (all [one fun c => isLatinLetter c || c == '_', many .greedy isWordChar,
      opt (all [spaces, lit '(', spaces, atLeastOne isDecimalDigit,
        opt (all [spaces, lit ',', spaces, atLeastOne isDecimalDigit]), spaces,
        opt (lit ')')])])]

/-! ### Options of a column -/

/-- The column may not be null. -/
def notNull : Pattern Slot := all [wordEdge, phrase ["NOT", "NULL"], wordEdge]

/-- The column is the primary key. -/
def inlinePrimaryKey : Pattern Slot := all [wordEdge, phrase ["PRIMARY", "KEY"], wordEdge]

/-- The column refers to another table. -/
def inlineReferences : Pattern Slot := all [wordEdge, references]

/-! ### Keys anywhere in a statement -/

/-- A primary key. -/
def primaryKeyAnywhere : Pattern Slot :=
  all [phrase ["PRIMARY", "KEY"], spaces, indexMethod, columnList .columns]

/-- A foreign key. -/
def foreignKeyAnywhere : Pattern Slot :=
  all [phrase ["FOREIGN", "KEY"], spaces, columnList .columns, spaces, references]

/-- The start of a change that adds a key. -/
def addConstraint : Pattern Slot :=
  all [leading ["ADD"], opt (all [leading ["CONSTRAINT"], openQuote, name, closeQuote, gap])]

/-- A primary key that is added to a table. -/
def addPrimaryKey : Pattern Slot := seq addConstraint primaryKeyAnywhere

/-- A foreign key that is added to a table. -/
def addForeignKey : Pattern Slot := seq addConstraint foreignKeyAnywhere

end Grammar

/-- The words that start a part of a table definition and never name a column. -/
def constraintWords : List Text :=
  ["CONSTRAINT", "PRIMARY", "FOREIGN", "UNIQUE", "CHECK", "FULLTEXT", "SPATIAL", "EXCLUDE",
    "CREATE", "TABLE"].map String.toList

/-- Whether a word starts a part that is no column. -/
def isConstraintWord (word : Text) : Bool := constraintWords.contains word.capitals

end Diagrams.Schema
