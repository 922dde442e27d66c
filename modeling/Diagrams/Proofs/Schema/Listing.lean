/-
Listings: statements that declare a table, with columns and keys in any order.

A listing is plainer than a table that means something: its keys may have names and stand in front
of their columns, two columns may share a name, and a key may list a column that is not there.  It
is written as a statement, or with the bracket that closes its list left out.  The strict reading
takes every statement of a listing, part by part (`readTable_statement`).
-/
import Diagrams.Proofs.Schema.WrittenTable

namespace Diagrams.Schema.Written

open Pattern

/-- A part of a listing. -/
inductive Item
  | column (column : Column)
  | key (constraint : Option Name) (key : Key)

namespace Item

/-- The part as it is written. -/
def text : Item → Text
  | column written => written.text
  | key constraint written => constraintText constraint ++ written.text

/-- The column that a part declares, before any key is applied to it. -/
def plain : Item → List Er.Column
  | column written => [written.plain]
  | key _ _ => []

/-- The name that a part marks as a primary key. -/
def markedNames : Item → List Text
  | column written => if written.marks.contains .primaryKey then [written.name.name] else []
  | key _ _ => []

/-- The names that a part lists as a primary key. -/
def listedNames : Item → List Text
  | column _ => []
  | key _ written => written.primaryColumns.map Name.name

/-- The foreign keys that a part declares for a table. -/
def references (table : Text) : Item → List Er.ForeignKey
  | column _ => []
  | key _ written => written.references table

/-- A type has two lengths at most. -/
def WellFormed : Item → Prop
  | column written => written.WellFormed ∧ written.type.lengths.length ≤ 2
  | key constraint written => ConstraintWellFormed constraint ∧ written.WellFormed

instance : (item : Item) → Decidable item.WellFormed
  | column written =>
    inferInstanceAs (Decidable (written.WellFormed ∧ written.type.lengths.length ≤ 2))
  | key constraint written =>
    inferInstanceAs (Decidable (ConstraintWellFormed constraint ∧ written.WellFormed))

end Item

/-- A listing. -/
structure Listing where
  /-- The name of the table. -/
  name : Name
  /-- The parts of the list, in order. -/
  items : List Item := []

namespace Listing

variable (listing : Listing)

/-- The list without its brackets. -/
def list : Text := Text.joined partSeparator (listing.items.map Item.text)

/-- The listing up to the end of its list, and how it ends. -/
def written (ending : Text) : Text :=
  spaced ["CREATE", "TABLE"] ++ (listing.name.text ++ ' ' :: '(' :: (listing.list ++ ending))

/-- The listing as a statement. -/
def statement : Text := listing.written [')', ';']

/-- The statement without the bracket that closes the list. -/
def truncated : Text := listing.written [';']

/-- Listings may hold any parts. -/
structure WellFormed : Prop where
  name : isIdentifier listing.name.name = true
  items : ∀ item ∈ listing.items, item.WellFormed

instance : Decidable listing.WellFormed :=
  decidable_of_iff (isIdentifier listing.name.name = true ∧ ∀ item ∈ listing.items, item.WellFormed)
    ⟨fun h => ⟨h.1, h.2⟩, fun h => ⟨h.name, h.items⟩⟩

/-- The draft that the parts lead to, with the given names for the primary key. -/
def draft (primaryKeys : List Text) : Draft :=
  { table := listing.name.name
    columns := listing.items.flatMap Item.plain
    primaryKeys
    foreignKeys := listing.items.flatMap (Item.references listing.name.name) }

/-- The names that the parts mark or list as a primary key, in order. -/
def keyNames : List Text := listing.items.flatMap fun item => item.markedNames ++ item.listedNames

end Listing

/-! ### What scans see -/

section

variable {item : Item}

theorem Item.solid (h : item.WellFormed) : Solid item.text := by
  cases item with
  | column column => exact Column.solid h.1
  | key constraint key => exact solid_constraintText constraint key.solid

theorem Item.uncut {isQuote : Char → Bool} (hquotes : QuotesApart isQuote) (h : item.WellFormed) :
    Uncut isQuote item.text := by
  cases item with
  | column column => exact Column.uncut hquotes h.1
  | key constraint key =>
      obtain ⟨hconstraint, hkey⟩ := h
      exact (uncut_constraintText hquotes hconstraint).append (Key.uncut hquotes hkey)

theorem Item.allWritten (h : item.WellFormed) : AllWritten item.text := by
  cases item with
  | column written => exact Column.allWritten h.1
  | key constraint written =>
      obtain ⟨hconstraint, hkey⟩ := h
      refine AllWritten.append ?_ (Key.allWritten hkey)
      cases constraint with
      | none => exact .nil
      | some name =>
          have hname : AllWritten name.text := Name.isWritten (hconstraint name rfl)
          exact (AllWritten.spaced (by decide)).append (hname.append (.cons (by decide) .nil))

end

namespace Listing

variable {listing : Listing}

theorem partsWritten (h : listing.WellFormed) : PartsWritten (listing.items.map Item.text) := by
  refine .of_uncut ?_ ?_
  · intro text htext
    obtain ⟨item, hitem, rfl⟩ := List.mem_map.mp htext
    exact Item.solid (h.items item hitem)
  · intro isQuote hquotes text htext
    obtain ⟨item, hitem, rfl⟩ := List.mem_map.mp htext
    exact Item.uncut hquotes (h.items item hitem)

theorem nested_list (h : listing.WellFormed) :
    Nested .round Brackets.isQuote (fun _ => false) listing.list :=
  nested_joined quotesApart_brackets (.inr rfl) (partsWritten h).bracketed

theorem written_eq (listing : Listing) (ending : Text) : listing.written ending =
    spaced ["CREATE"] ++ (spaced ["TABLE"] ++ (listing.name.text ++ ' ' :: '(' ::
      (listing.list ++ ending))) := by
  simp only [written, spaced, List.append_assoc, List.cons_append, List.nil_append]

end Listing

/-! ### The strict reading -/

/-- Reading a part adds to a draft what the part declares. -/
theorem readPart_item (draft : Draft) {item : Item} (h : item.WellFormed) :
    readPart draft item.text = .ok { draft with
      columns := draft.columns ++ item.plain
      primaryKeys := draft.primaryKeys ++ (item.markedNames ++ item.listedNames)
      foreignKeys := draft.foreignKeys ++ item.references draft.table } := by
  cases item with
  | column column =>
      refine (readPart_column draft h.1).trans ?_
      simp [Item.plain, Item.markedNames, Item.listedNames, Item.references]
  | key constraint key =>
      refine (readPart_key draft h.1 h.2).trans ?_
      simp [Item.plain, Item.markedNames, Item.listedNames, Item.references]

theorem foldlM_readPart_items {items : List Item} (h : ∀ item ∈ items, item.WellFormed)
    (draft : Draft) :
    (items.map Item.text).foldlM readPart draft = .ok { draft with
      columns := draft.columns ++ items.flatMap Item.plain
      primaryKeys := draft.primaryKeys ++
        items.flatMap fun item => item.markedNames ++ item.listedNames
      foreignKeys := draft.foreignKeys ++ items.flatMap (Item.references draft.table) } := by
  induction items generalizing draft with
  | nil => simp [pure, Except.pure]
  | cons item items ih =>
      obtain ⟨hitem, hitems⟩ := List.forall_mem_cons.mp h
      rw [List.map_cons, foldlM_readPart_cons]
      refine ⟨_, readPart_item draft hitem, ?_⟩
      rw [ih hitems]
      simp

/-- The statement of a listing is read strictly. -/
theorem readTable_statement {listing : Listing} (h : listing.WellFormed) :
    readTable listing.statement = .ok (listing.draft listing.keyNames).finish := by
  refine readTable_of_parts h.name (Listing.partsWritten h) (listing.written_eq [')', ';']) ?_
  rw [foldlM_readPart_items h.items]
  rfl

end Diagrams.Schema.Written
