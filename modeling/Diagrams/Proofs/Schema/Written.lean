/-
Scripts that are written out from tables.

A table is written as one statement: its columns with their types and marks, then its keys,
and every name may be quoted in one of four ways.  `Written.script` writes tables out;
`Table.entity` and `relationships` say what they stand for, told from the tables alone and
not from how a script is read.

What makes such scripts readable is said at the end.  They are made of few characters, and their
quotes and brackets are closed, so none of the scans over a script is led astray.
-/
import Diagrams.Schema.Reading
import Diagrams.Proofs.Schema.Script
import Diagrams.Proofs.Schema.Header
import Diagrams.Proofs.Text.Words

namespace Diagrams.Schema.Written

/-- How a name is quoted. -/
inductive Quotes
  | none
  | backticks
  | doubleQuotes
  | brackets
  deriving DecidableEq, Repr

namespace Quotes

/-- What stands in front of a name. -/
def opening : Quotes → Text
  | none => []
  | backticks => ['\x60']
  | doubleQuotes => ['"']
  | brackets => ['[']

/-- What stands after a name. -/
def closing : Quotes → Text
  | none => []
  | backticks => ['\x60']
  | doubleQuotes => ['"']
  | brackets => [']']

end Quotes

/-- A name at one place of a script. -/
structure Name where
  /-- The name itself. -/
  name : Text
  /-- Its quotes. -/
  quotes : Quotes := .none

/-- The name in its quotes. -/
def Name.text (written : Name) : Text :=
  written.quotes.opening ++ (written.name ++ written.quotes.closing)

/-- Names in a list, without its brackets. -/
def nameList (names : List Name) : Text := Text.joined partSeparator (names.map Name.text)

/-- A list in round brackets. -/
def bracketed (inner : Text) : Text := '(' :: (inner ++ [')'])

/-- A data type: a word, and lengths in brackets if there are any. -/
structure DataType where
  /-- The word. -/
  word : Text
  /-- The lengths. -/
  lengths : List Text := []

/-- The type with its lengths. -/
def DataType.text (type : DataType) : Text :=
  type.word ++
    if type.lengths.isEmpty then [] else bracketed (Text.joined [','] type.lengths)

/-- What may stand after the type of a column. -/
inductive Mark
  | notNull
  | primaryKey
  deriving DecidableEq, Repr

/-- The two words of a mark. -/
def Mark.words : Mark → String × String
  | notNull => ("NOT", "NULL")
  | primaryKey => ("PRIMARY", "KEY")

/-- The words of a mark with a space in front of each. -/
def Mark.text (mark : Mark) : Text :=
  ' ' :: (mark.words.1.toList ++ ' ' :: mark.words.2.toList)

/-- A column. -/
structure Column where
  /-- Its name. -/
  name : Name
  /-- Its type. -/
  type : DataType
  /-- Its marks. -/
  marks : List Mark := []

/-- The column as a part of its table. -/
def Column.text (column : Column) : Text :=
  column.name.text ++ ' ' :: (column.type.text ++ column.marks.flatMap Mark.text)

/-- What may stand after the type of a column that can refer to another table. -/
inductive Clause
  | mark (mark : Mark)
  /-- A column of another table that is referred to. -/
  | reference (target column : Name)

namespace Clause

/-- The first word of the clause. -/
def word : Clause → String
  | mark written => written.words.1
  | reference _ _ => "REFERENCES"

/-- What stands behind the first word. -/
def behind : Clause → Text
  | mark written => written.words.2.toList
  | reference target column => target.text ++ bracketed (nameList [column])

/-- The clause with a space in front of it. -/
def text (clause : Clause) : Text := ' ' :: (clause.word.toList ++ ' ' :: clause.behind)

/-- Whether the clause is a mark. -/
def isMark (wanted : Mark) : Clause → Bool
  | mark written => wanted == written
  | reference _ _ => false

/-- What the clause refers to. -/
def reference? : Clause → Option (Name × Name)
  | mark _ => none
  | reference target column => some (target, column)

end Clause

/-- A column that can refer to another table. -/
structure LinkedColumn where
  /-- Its name. -/
  name : Name
  /-- Its type. -/
  type : DataType
  /-- What stands after the type. -/
  clauses : List Clause := []

namespace LinkedColumn

variable (column : LinkedColumn)

/-- The column as a part of its table. -/
def text : Text := column.name.text ++
    ' ' :: (column.type.text ++ column.clauses.flatMap Clause.text)

/-- Whether the column has a mark. -/
def isMarked (mark : Mark) : Bool := column.clauses.any (·.isMark mark)

/-- What the column refers to: the first reference counts. -/
def reference? : Option (Name × Name) := column.clauses.findSome? Clause.reference?

end LinkedColumn

/-- A column with marks, as one whose clauses are its marks. -/
def Column.linked (column : Column) : LinkedColumn :=
  { name := column.name, type := column.type, clauses := column.marks.map .mark }

/-- A key that is a part of its own. -/
inductive Key
  /-- A primary key over some columns. -/
  | primary (columns : List Name)
  /-- A foreign key that refers to columns of another table. -/
  | foreign (columns : List Name) (target : Name) (targetColumns : List Name)

/-- The key as a part of its table. -/
def Key.text : Key → Text
  | primary columns => spaced ["PRIMARY", "KEY"] ++ bracketed (nameList columns)
  | foreign columns target targetColumns =>
    spaced ["FOREIGN", "KEY"] ++ (bracketed (nameList columns) ++ ' ' ::
      (spaced ["REFERENCES"] ++ (target.text ++ bracketed (nameList targetColumns))))

/-- The name of a constraint in front of a key, if it has one. -/
def constraintText : Option Name → Text
  | none => []
  | some name => spaced ["CONSTRAINT"] ++ (name.text ++ [' '])

/-- A table. -/
structure Table where
  /-- Its name. -/
  name : Name
  /-- Its columns, in order. -/
  columns : List Column := []
  /-- Its keys, in order. -/
  keys : List Key := []

namespace Table

variable (table : Table)

/-- The parts of a table: first its columns, then its keys. -/
def parts : List Text := table.columns.map Column.text ++ table.keys.map Key.text

/-- The statement that declares the table, without its semicolon. -/
def body : Text :=
  spaced ["CREATE", "TABLE"] ++
    (table.name.text ++ ' ' :: bracketed (Text.joined partSeparator table.parts))

end Table

/-- The script that declares some tables. -/
def script (tables : List Table) : Text := tables.flatMap fun table => table.body ++ [';']

/-! ### What a script stands for -/

/-- The columns of a primary key. -/
def Key.primaryColumns : Key → List Name
  | primary columns => columns
  | foreign _ _ _ => []

/-- The foreign keys that a key declares for the columns of a table, each with the column at the
same place in the other list. -/
def Key.references (table : Text) : Key → List Er.ForeignKey
  | primary _ => []
  | foreign columns target targetColumns =>
    columns.zipIdx.map fun (column, index) =>
      { sourceTable := table, column := column.name, targetTable := target.name
        targetColumn := (targetColumns.map Name.name)[index]? }

/-- The names in the primary keys among some keys, in order. -/
def primaryNames (keys : List Key) : List Text :=
  keys.flatMap fun key => key.primaryColumns.map Name.name

/-- The keys of their own that say the same as the clauses of a column. -/
def LinkedColumn.keys (column : LinkedColumn) : List Key :=
  (if column.isMarked .primaryKey then [.primary [column.name]] else []) ++
    column.reference?.toList.map fun (target, other) => .foreign [column.name] target [other]

namespace Table

variable (table : Table)

/-- Whether a column is in the primary key: it is marked, or a primary key lists its name. -/
def isKey (column : Column) : Bool :=
  column.marks.contains .primaryKey ||
    table.keys.any fun key =>
      key.primaryColumns.any fun listed => column.name.name.lower = listed.name.lower

/-- The foreign keys of the table, in order. -/
def references : List Er.ForeignKey := table.keys.flatMap (Key.references table.name.name)

/-- The last foreign key that lists a column. -/
def reference? (column : Column) : Option Er.ForeignKey :=
  (table.references.filter fun key => column.name.name.lower = key.column.lower).getLast?

/-- The column that a written column stands for. -/
def column (column : Column) : Er.Column :=
  { name := column.name.name
    type := column.type.text
    isPrimaryKey := table.isKey column
    isNullable := !column.marks.contains .notNull && !table.isKey column
    isForeignKey := (table.reference? column).isSome
    referencedTable := (table.reference? column).map (·.targetTable)
    referencedColumn := (table.reference? column).bind (·.targetColumn) }

/-- The table that a written table stands for. -/
def entity : Er.Entity := { name := table.name.name, columns := table.columns.map table.column }

/-- The place of the column of a name. -/
def columnIndex? (name : Text) : Option Nat :=
  table.columns.findIdx? fun column => column.name.name.lower = name.lower

/-- Whether the column of a name is the primary key, by itself. -/
def isSoleKey (name : Text) : Bool :=
  match table.columns.filter table.isKey with
  | [column] => column.name.name.lower = name.lower
  | _ => false

/-- Whether there is a column at the place that is in the primary key. -/
def isKeyAt (place : Option Nat) : Bool :=
  (place.bind (table.columns[·]?)).any table.isKey

end Table

/-- The place of the table of a name. -/
def tableIndex? (tables : List Table) (name : Text) : Option Nat :=
  tables.findIdx? fun table => table.name.name.lower = name.lower

/-- The relationship that a foreign key of the table at a place stands for, if the table that it
refers to is declared. -/
def relationship? (tables : List Table) (table : Table) (place : Nat) (key : Er.ForeignKey) :
    Option (Edge Er.Relationship) := do
  let index ← tableIndex? tables key.targetTable
  let target ← tables[index]?
  let targetColumn := key.targetColumn.bind target.columnIndex?
  return {
    source := place
    target := index
    label :=
      { name := table.name.name ++ '_' :: target.name.name
        cardinality := .classify (table.isSoleKey key.column) (target.isKeyAt targetColumn)
        sourceColumn := table.columnIndex? key.column
        targetColumn } }

/-- The relationships between some tables: one for each foreign key, in order. -/
def relationships (tables : List Table) : List (Edge Er.Relationship) :=
  tables.zipIdx.flatMap fun (table, place) =>
    table.references.filterMap (relationship? tables table place)

/-! ### What may be written -/

/-- A type has a name and lengths of digits. -/
structure DataType.WellFormed (type : DataType) : Prop where
  word : isIdentifier type.word = true
  lengths : ∀ length ∈ type.lengths, length ≠ [] ∧ length.all isDecimalDigit = true

instance (type : DataType) : Decidable type.WellFormed :=
  decidable_of_iff (isIdentifier type.word = true ∧
      ∀ length ∈ type.lengths, length ≠ [] ∧ length.all isDecimalDigit = true)
    ⟨fun h => ⟨h.1, h.2⟩, fun h => ⟨h.word, h.lengths⟩⟩

/-- A column has a name that does not start a constraint. -/
structure Column.WellFormed (column : Column) : Prop where
  name : isIdentifier column.name.name = true
  noConstraint : isConstraintWord column.name.name = false
  type : column.type.WellFormed

instance (column : Column) : Decidable column.WellFormed :=
  decidable_of_iff (isIdentifier column.name.name = true ∧
      isConstraintWord column.name.name = false ∧ column.type.WellFormed)
    ⟨fun h => ⟨h.1, h.2.1, h.2.2⟩, fun h => ⟨h.name, h.noConstraint, h.type⟩⟩

/-- A clause refers to names only. -/
def Clause.WellFormed : Clause → Prop
  | mark _ => True
  | reference target column => isIdentifier target.name = true ∧ isIdentifier column.name = true

instance : (clause : Clause) → Decidable clause.WellFormed
  | .mark _ => inferInstanceAs (Decidable True)
  | .reference target column =>
    inferInstanceAs (Decidable (isIdentifier target.name = true ∧ isIdentifier column.name = true))

/-- A column that can refer to another table has a name that does not start a constraint. -/
structure LinkedColumn.WellFormed (column : LinkedColumn) : Prop where
  name : isIdentifier column.name.name = true
  noConstraint : isConstraintWord column.name.name = false
  type : column.type.WellFormed
  clauses : ∀ clause ∈ column.clauses, clause.WellFormed

instance (column : LinkedColumn) : Decidable column.WellFormed :=
  decidable_of_iff (isIdentifier column.name.name = true ∧
      isConstraintWord column.name.name = false ∧ column.type.WellFormed ∧
      ∀ clause ∈ column.clauses, clause.WellFormed)
    ⟨fun h => ⟨h.1, h.2.1, h.2.2.1, h.2.2.2⟩, fun h => ⟨h.name, h.noConstraint, h.type, h.clauses⟩⟩

theorem Column.text_linked (column : Column) : column.linked.text = column.text := by
  unfold LinkedColumn.text Column.text Column.linked
  rw [List.flatMap_map]
  rfl

theorem Column.WellFormed.linked {column : Column} (h : column.WellFormed) :
    column.linked.WellFormed := by
  refine ⟨h.name, h.noConstraint, h.type, fun clause hclause => ?_⟩
  obtain ⟨mark, -, rfl⟩ := List.mem_map.mp hclause
  trivial

/-- A list of at least one name. -/
structure NamesWellFormed (names : List Name) : Prop where
  nonempty : names ≠ []
  names : ∀ written ∈ names, isIdentifier written.name = true

instance (names : List Name) : Decidable (NamesWellFormed names) :=
  decidable_of_iff (names ≠ [] ∧ ∀ written ∈ names, isIdentifier written.name = true)
    ⟨fun h => ⟨h.1, h.2⟩, fun h => ⟨h.nonempty, h.names⟩⟩

theorem NamesWellFormed.singleton {written : Name} (h : isIdentifier written.name = true) :
    NamesWellFormed [written] :=
  ⟨List.cons_ne_nil _ _, List.forall_mem_singleton.mpr h⟩

/-- A key has columns and names only. -/
def Key.WellFormed : Key → Prop
  | primary columns => NamesWellFormed columns
  | foreign columns target targetColumns =>
    NamesWellFormed columns ∧ isIdentifier target.name = true ∧ NamesWellFormed targetColumns

instance : (key : Key) → Decidable key.WellFormed
  | .primary columns => inferInstanceAs (Decidable (NamesWellFormed columns))
  | .foreign columns target targetColumns =>
    inferInstanceAs (Decidable (NamesWellFormed columns ∧ isIdentifier target.name = true ∧
      NamesWellFormed targetColumns))

/-- The columns of a table have different names, case aside. -/
structure Table.WellFormed (table : Table) : Prop where
  name : isIdentifier table.name.name = true
  columns : ∀ column ∈ table.columns, column.WellFormed
  distinct : (table.columns.map fun column => column.name.name.lower).Nodup
  keys : ∀ key ∈ table.keys, key.WellFormed

instance (table : Table) : Decidable table.WellFormed :=
  decidable_of_iff (isIdentifier table.name.name = true ∧
      (∀ column ∈ table.columns, column.WellFormed) ∧
      (table.columns.map fun column => column.name.name.lower).Nodup ∧
      ∀ key ∈ table.keys, key.WellFormed)
    ⟨fun h => ⟨h.1, h.2.1, h.2.2.1, h.2.2.2⟩, fun h => ⟨h.name, h.columns, h.distinct, h.keys⟩⟩

/-- Tables of different names, case aside. -/
structure WellFormed (tables : List Table) : Prop where
  each : ∀ table ∈ tables, table.WellFormed
  distinct : (tables.map fun table => table.name.name.lower).Nodup

instance (tables : List Table) : Decidable (WellFormed tables) :=
  decidable_of_iff ((∀ table ∈ tables, table.WellFormed) ∧
      (tables.map fun table => table.name.name.lower).Nodup)
    ⟨fun h => ⟨h.1, h.2⟩, fun h => ⟨h.each, h.distinct⟩⟩

/-! ### The characters of a script -/

/-- The characters that scripts are written with. -/
def isWritten (c : Char) : Bool :=
  isWordChar c || isOpenQuote c || isCloseQuote c || c == ' ' || c == ',' || c == '(' || c == ')'

theorem isWritten_of_isWordChar {c : Char} (h : isWordChar c = true) : isWritten c = true := by
  simp [isWritten, h]

theorem isWordChar_of_length {length : Text} (h : length.all isDecimalDigit = true) :
    ∀ c ∈ length, isWordChar c = true :=
  fun c hc => isWordChar_of_isDecimalDigit (List.all_eq_true.mp h c hc)

namespace Quotes

theorem atMostOne_opening (quotes : Quotes) : AtMostOne isOpenQuote quotes.opening := by
  cases quotes with
  | none => exact .inl rfl
  | backticks => exact .inr ⟨_, rfl, rfl⟩
  | doubleQuotes => exact .inr ⟨_, rfl, rfl⟩
  | brackets => exact .inr ⟨_, rfl, rfl⟩

theorem atMostOne_closing (quotes : Quotes) : AtMostOne isCloseQuote quotes.closing := by
  cases quotes with
  | none => exact .inl rfl
  | backticks => exact .inr ⟨_, rfl, rfl⟩
  | doubleQuotes => exact .inr ⟨_, rfl, rfl⟩
  | brackets => exact .inr ⟨_, rfl, rfl⟩

end Quotes

/-- A written name is a writing of its name. -/
theorem Name.spelled {written : Name} (h : isIdentifier written.name = true) :
    Spelled written.quotes.opening [] written.name written.quotes.closing :=
  ⟨written.quotes.atMostOne_opening, .inl rfl, ne_nil_of_isIdentifier h,
    isWordChar_of_isIdentifier h, written.quotes.atMostOne_closing⟩

theorem Name.isNameChar {written : Name} (h : isIdentifier written.name = true) :
    ∀ c ∈ written.text, isNameChar c = true := (Name.spelled h).isNameChar

theorem Name.isWritten {written : Name} (h : isIdentifier written.name = true) :
    ∀ c ∈ written.text, isWritten c = true := by
  intro c hc
  simp only [Name.text, List.mem_append] at hc
  rcases hc with hc | hc | hc
  · simp [Written.isWritten, written.quotes.atMostOne_opening.forall c hc]
  · exact isWritten_of_isWordChar (isWordChar_of_isIdentifier h c hc)
  · simp [Written.isWritten, written.quotes.atMostOne_closing.forall c hc]

theorem Name.ne_nil {written : Name} (h : isIdentifier written.name = true) :
    written.text ≠ [] := by
  simp [Name.text, ne_nil_of_isIdentifier h]

end Diagrams.Schema.Written
