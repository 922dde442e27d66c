/-
The foreign keys behind the flags of a table.

A flag says that a column belongs to a foreign key and what the last such key refers to.  The keys
themselves wait elsewhere, to become relationships later.  `Records` says that the two tell the same
story: no key whose column is there goes unmarked, and no column is marked without a key that says
what it refers to.  Marking keys keeps this, whatever names the keys hold and however many of them
are for the same column.
-/
import Diagrams.Proofs.Er.Link

namespace Diagrams.Er

namespace Entity

/-! ### Flags and keys -/

/-- The flags of a table and some foreign keys tell the same story. -/
structure Records (table : Entity) (keys : List ForeignKey) : Prop where
  /-- The column of every key is flagged, where the table has it. -/
  flagged : ∀ key ∈ keys, ∀ place, table.columnIndex? key.column = some place →
    ∃ column, table.columns[place]? = some column ∧ column.isForeignKey = true
  /-- Every flagged column has a key that says what the column refers to. -/
  explained : ∀ place column, table.columns[place]? = some column → column.isForeignKey = true →
    ∃ key ∈ keys, table.columnIndex? key.column = some place ∧
      column.referencedTable = some key.targetTable ∧ column.referencedColumn = key.targetColumn

namespace Records

variable {table : Entity} {keys : List ForeignKey}

/-- A table without flags needs no keys. -/
theorem of_unmarked (h : ∀ column ∈ table.columns, column.isForeignKey = false) :
    table.Records [] := by
  refine ⟨fun key hkey => absurd hkey List.not_mem_nil, ?_⟩
  intro place column hcolumn hflag
  rw [h column (List.mem_of_getElem? hcolumn)] at hflag
  exact Bool.noConfusion hflag

/-- Primary keys are another matter. -/
theorem markPrimaryKey (h : table.Records keys) (name : Text) :
    (table.modifyColumn name .markPrimaryKey).Records keys := by
  have hindex : (table.modifyColumn name .markPrimaryKey).columnIndex? = table.columnIndex? :=
    table.columnIndex?_modifyColumn name fun _ => rfl
  constructor
  · intro key hkey place hplace
    rw [hindex] at hplace
    obtain ⟨column, hcolumn, hflag⟩ := h.flagged key hkey place hplace
    rw [getElem?_modifyColumn, hcolumn]
    by_cases hmarked : table.columnIndex? name = some place
    · rw [if_pos hmarked]
      exact ⟨column.markPrimaryKey, rfl, hflag⟩
    · rw [if_neg hmarked]
      exact ⟨column, rfl, hflag⟩
  · intro place column hcolumn hflag
    rw [getElem?_modifyColumn] at hcolumn
    rw [hindex]
    by_cases hmarked : table.columnIndex? name = some place
    · rw [if_pos hmarked] at hcolumn
      obtain ⟨old, hold, rfl⟩ := Option.map_eq_some_iff.mp hcolumn
      exact h.explained place old hold hflag
    · rw [if_neg hmarked] at hcolumn
      exact h.explained place column hcolumn hflag

/-- Marking the column of a key takes one more key to explain. -/
theorem markForeignKey (h : table.Records keys) (key : ForeignKey) :
    (table.modifyColumn key.column (.markForeignKey key.targetTable key.targetColumn)).Records
      (keys ++ [key]) := by
  have hindex : (table.modifyColumn key.column
      (.markForeignKey key.targetTable key.targetColumn)).columnIndex? = table.columnIndex? :=
    table.columnIndex?_modifyColumn key.column fun _ => rfl
  constructor
  · intro other hother place hplace
    rw [hindex] at hplace
    rw [getElem?_modifyColumn]
    by_cases hmarked : table.columnIndex? key.column = some place
    · rw [if_pos hmarked]
      obtain ⟨⟨column, hcolumn, -⟩, -⟩ := (columnIndex?_eq_some_iff ..).mp hmarked
      exact ⟨_, by rw [hcolumn]; rfl, rfl⟩
    · rw [if_neg hmarked]
      -- The column of the new key is elsewhere, so this is an old key.
      rcases List.mem_append.mp hother with hold | hnew
      · exact h.flagged other hold place hplace
      · rw [List.mem_singleton.mp hnew] at hplace
        exact absurd hplace hmarked
  · intro place column hcolumn hflag
    rw [getElem?_modifyColumn] at hcolumn
    rw [hindex]
    by_cases hmarked : table.columnIndex? key.column = some place
    · rw [if_pos hmarked] at hcolumn
      obtain ⟨old, -, rfl⟩ := Option.map_eq_some_iff.mp hcolumn
      exact ⟨key, List.mem_append_right keys List.mem_cons_self, hmarked, rfl, rfl⟩
    · rw [if_neg hmarked] at hcolumn
      obtain ⟨old, hold, htold⟩ := h.explained place column hcolumn hflag
      exact ⟨old, List.mem_append_left [key] hold, htold⟩

theorem markForeignKeys (h : table.Records keys) (added : List ForeignKey) :
    (added.foldl (fun e key =>
      e.modifyColumn key.column (.markForeignKey key.targetTable key.targetColumn)) table).Records
      (keys ++ added) := by
  induction added generalizing table keys with
  | nil => rwa [List.append_nil]
  | cons key added ih =>
      rw [List.foldl_cons, ← List.singleton_append, ← List.append_assoc]
      exact ih (h.markForeignKey key)

/-- Marking keys keeps the story, with the new keys in it. -/
theorem applyKeys (h : table.Records keys) (primaryKeys : List Text) (added : List ForeignKey) :
    (table.applyKeys primaryKeys added).Records (keys ++ added) := by
  unfold Entity.applyKeys
  have hprimary : (primaryKeys.foldl (fun e name => e.modifyColumn name .markPrimaryKey)
      table).Records keys :=
    List.foldlRecOn (motive := (Records · keys)) primaryKeys _ h
      fun e he name _ => he.markPrimaryKey name
  exact hprimary.markForeignKeys added

end Records

end Entity

/-! ### Flags and relationships -/

namespace Diagram

/-- A foreign key is for the column at a place of a table. -/
def IsKeyOf (diagram : Diagram) (key : ForeignKey) (source place : Nat) : Prop :=
  key.sourceTable.lower = (diagram.nameOf source).lower ∧
    diagram.columnIndex? source key.column = some place

/-- The flags of a diagram and some relationships tell the same story, where the keys
behind them are the given ones. -/
structure KeysAgree (diagram : Diagram) (edges : List (Edge Relationship))
    (keys : List ForeignKey) : Prop where
  /-- A column is flagged just if there is a key for it. -/
  recorded : ∀ source place column, diagram.column? source (some place) = some column →
    (column.isForeignKey = true ↔ ∃ key ∈ keys, diagram.IsKeyOf key source place)
  /-- A relationship that starts at a column starts at a flagged one. -/
  flagged : ∀ edge ∈ edges, ∀ place, edge.label.sourceColumn = some place →
    ∃ column, diagram.column? edge.source (some place) = some column ∧ column.isForeignKey = true
  /-- A flagged column whose table is shown has a relationship to it, at the column that it refers
  to there. -/
  related : ∀ source place column target, diagram.column? source (some place) = some column →
    column.isForeignKey = true → target ∈ diagram.members →
    column.referencedTable.map Text.lower = some (diagram.nameOf target).lower →
    ∃ edge ∈ edges, edge.source = source ∧ edge.target = target ∧
      edge.label.sourceColumn = some place ∧
      edge.label.targetColumn = column.referencedColumn.bind (diagram.columnIndex? target)
  /-- No relationship starts at a column just if none of its keys refers to a shown table. -/
  unrelated : ∀ source place column, diagram.column? source (some place) = some column →
    ((∀ edge ∈ edges, edge.source = source → edge.label.sourceColumn ≠ some place) ↔
      ∀ key ∈ keys, diagram.IsKeyOf key source place →
        ∀ target ∈ diagram.members, (diagram.nameOf target).lower ≠ key.targetTable.lower)

/-- Placing tables changes nothing in this. -/
theorem KeysAgree.of_sameTables {diagram other : Diagram} {edges : List (Edge Relationship)}
    {keys : List ForeignKey} (h : diagram.KeysAgree edges keys)
    (htables : SameTables diagram other) :
    other.KeysAgree edges keys := by
  have hindex : other.columnIndex? = diagram.columnIndex? := by
    funext node name
    exact htables.columnIndex? node name
  have hcolumn : other.column? = diagram.column? := by
    funext node place
    exact htables.column? node place
  have hname : Graph.nameOf other = Graph.nameOf diagram := funext htables.nameOf
  have hkey : other.IsKeyOf = diagram.IsKeyOf := by
    unfold IsKeyOf
    rw [hname, hindex]
  refine ⟨?_, ?_, ?_, ?_⟩
  · rw [hcolumn, hkey]
    exact h.recorded
  · rw [hcolumn]
    exact h.flagged
  · rw [hcolumn, htables.members, hname, hindex]
    exact h.related
  · rw [hcolumn, htables.members, hname, hkey]
    exact h.unrelated

end Diagram

end Diagrams.Er
