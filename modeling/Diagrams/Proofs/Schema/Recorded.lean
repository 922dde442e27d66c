/-
Flags and relationships come from the same foreign keys.

The flags of a table are set when a statement is read, and the relationships are made at the
end, from a list of foreign keys that was collected beside.  `Recorded` follows both: each
table that was read has its own share of the waiting keys, by which its flags can be explained,
and nothing else waits.  The three ways of reading keys, strict, permissive and by a change,
hand the same keys to both sides.

At the end a key finds its table again by name.  Where names are told apart, that is the table whose
share it is in, so every relationship starts at a flagged column and every flag whose table is there
has its relationship.
-/
import Mathlib.Logic.Function.Basic
import Diagrams.Proofs.Er.Recorded
import Diagrams.Proofs.Schema.Effect

namespace Diagrams.Schema

theorem sourceTable_of_mem_foreignKeys {table columns target : Text} {targetColumns : Option Text}
    {key : Er.ForeignKey} (h : key ∈ foreignKeys table columns target targetColumns) :
    key.sourceTable = table := by
  obtain ⟨place, -, rfl⟩ := List.mem_map.mp h
  rfl

theorem sourceTable_of_mem_addedForeignKeys {table changes : Text} {key : Er.ForeignKey}
    (h : key ∈ addedForeignKeys table changes) : key.sourceTable = table := by
  obtain ⟨found, -, hkey⟩ := List.mem_flatMap.mp h
  exact sourceTable_of_mem_foreignKeys hkey

/-! ### Definitions -/

/-- The flags of a definition are explained by its own keys. -/
structure Definition.Recorded (definition : Definition) : Prop where
  records : definition.entity.Records definition.foreignKeys
  owned : ∀ key ∈ definition.foreignKeys, key.sourceTable = definition.entity.name

namespace Draft

/-- No flags have been set yet, and all keys so far are those of the table. -/
structure Unmarked (draft : Draft) : Prop where
  columns : ∀ column ∈ draft.columns, column.isForeignKey = false
  owned : ∀ key ∈ draft.foreignKeys, key.sourceTable = draft.table

namespace Unmarked

variable {draft : Draft}

theorem start (table : Text) : Unmarked { table } := by
  constructor
  · intro column hcolumn
    exact absurd hcolumn List.not_mem_nil
  · intro key hkey
    exact absurd hkey List.not_mem_nil

theorem addPrimaryKey (h : draft.Unmarked) (found : Match Slot) :
    (draft.addPrimaryKey found).Unmarked := ⟨h.columns, h.owned⟩

theorem addForeignKeys (h : draft.Unmarked) (columns : Text) (found : Match Slot) :
    (draft.addForeignKeys columns found).Unmarked := by
  refine ⟨h.columns, ?_⟩
  intro key hkey
  rw [foreignKeys_addForeignKeys] at hkey
  rcases List.mem_append.mp hkey with hold | hnew
  · exact h.owned key hold
  · exact sourceTable_of_mem_foreignKeys hnew

theorem addColumn (h : draft.Unmarked) (found : Match Slot) (options : Text) :
    (draft.addColumn found options).Unmarked := by
  constructor
  · intro column hcolumn
    rw [columns_addColumn] at hcolumn
    rcases List.mem_append.mp hcolumn with hold | hnew
    · exact h.columns column hold
    · rw [List.mem_singleton.mp hnew]
      rfl
  · intro key hkey
    rw [foreignKeys_addColumn] at hkey
    rw [table_addColumn]
    cases hreference : Grammar.inlineReferences.find? options with
    | none =>
        rw [hreference] at hkey
        exact h.owned key hkey
    | some reference =>
        rw [hreference] at hkey
        rcases List.mem_append.mp hkey with hold | hnew
        · exact h.owned key hold
        · exact sourceTable_of_mem_foreignKeys hnew

theorem finish (h : draft.Unmarked) : draft.finish.Recorded := by
  have hstart : Er.Entity.Records { name := draft.table, columns := draft.columns } [] :=
    .of_unmarked h.columns
  constructor
  · have hmarked := hstart.applyKeys draft.primaryKeys draft.foreignKeys
    rwa [List.nil_append] at hmarked
  · intro key hkey
    rw [name_finish]
    exact h.owned key hkey

end Unmarked

end Draft

theorem PartReading.unmarked {draft draft' : Draft} {part : Text}
    (h : PartReading draft part draft') (hunmarked : draft.Unmarked) : draft'.Unmarked := by
  cases h with
  | primaryKey => exact hunmarked.addPrimaryKey _
  | foreignKey => exact hunmarked.addForeignKeys _ _
  | constraint => exact hunmarked
  | column => exact hunmarked.addColumn _ _

theorem recorded_of_readTable {statement : Text} {definition : Definition}
    (h : readTable statement = .ok definition) : definition.Recorded := by
  obtain ⟨header, list, after, draft, -, -, hparts, rfl⟩ := (readTable_eq_ok_iff ..).mp h
  apply Draft.Unmarked.finish
  refine foldlM_readPart_induction (P := Draft.Unmarked) ?_ (.start _) hparts
  intro draft part draft' hunmarked hpart
  exact hpart.unmarked hunmarked

theorem recorded_of_salvageTable {statement : Text} {salvage : Salvage}
    (h : salvageTable statement = some salvage) : salvage.definition.Recorded := by
  obtain ⟨header, -, hdefinition⟩ := salvageTable_eq_some h
  rw [hdefinition]
  refine Draft.Unmarked.finish (foldl_salvagePart_induction _ ?_ ?_)
  · -- The keys are collected first, wherever in the statement they are.
    refine salvageKeys_induction (motive := Draft.Unmarked) statement (.start _) ?_ ?_
    · exact fun draft found _ hunmarked => hunmarked.addPrimaryKey found
    · exact fun draft found _ hunmarked => hunmarked.addForeignKeys _ found
  · exact fun draft part found _ hunmarked => hunmarked.addColumn _ _

theorem recorded_of_declared? {statement : Text} {definition : Definition}
    (h : declared? statement = some definition) : definition.Recorded := by
  unfold declared? at h
  cases hchange : change? statement with
  | some change =>
      rw [hchange] at h
      exact absurd h.symm (Option.some_ne_none definition)
  | none =>
      rw [hchange] at h
      unfold definition? at h
      cases hread : readTable (stripComments statement) with
      | ok strict =>
          rw [hread] at h
          obtain rfl := Option.some.inj h
          exact recorded_of_readTable hread
      | error error =>
          rw [hread] at h
          obtain ⟨salvage, hsalvage, rfl⟩ := Option.map_eq_some_iff.mp h
          exact recorded_of_salvageTable hsalvage

/-! ### Between two statements -/

namespace Progress

/-- Each table has a share of the keys that wait, by which its flags are explained. -/
structure Shares (progress : Progress) (share : Nat → List Er.ForeignKey) : Prop where
  /-- The flags of every table are explained by its share. -/
  records : ∀ node table, progress.diagram.node? node = some table → table.Records (share node)
  /-- The keys in the share of a table are those of the table. -/
  owned : ∀ node table, progress.diagram.node? node = some table →
    ∀ key ∈ share node, key.sourceTable = table.name
  /-- What waits is in the share of some table. -/
  pending : ∀ key, key ∈ progress.pending ↔
    ∃ node table, progress.diagram.node? node = some table ∧ key ∈ share node

/-- Flags and waiting keys tell the same story. -/
def Recorded (progress : Progress) : Prop := ∃ share, progress.Shares share

theorem recorded_start (title : Text) : Recorded { diagram := .empty title } := by
  have hnone : ∀ node, (Er.Diagram.empty title).node? node = none := fun _ => List.getElem?_nil
  refine ⟨fun _ => [], ?_, ?_, ?_⟩
  · intro node table htable
    exact absurd (htable.symm.trans (hnone node)) (Option.some_ne_none table)
  · intro node table htable
    exact absurd (htable.symm.trans (hnone node)) (Option.some_ne_none table)
  · intro key
    constructor
    · intro hkey
      exact absurd hkey List.not_mem_nil
    · rintro ⟨node, table, -, hkey⟩
      exact absurd hkey List.not_mem_nil

variable {before after : Progress} {share : Nat → List Er.ForeignKey}

/-- One table that is made or changed, with its share in place of the one it had. -/
theorem Shares.update (h : before.Shares share) {node : Nat} {table : Er.Entity}
    {keys : List Er.ForeignKey} (hnode : after.diagram.node? node = some table)
    (hothers : ∀ other, other ≠ node → after.diagram.node? other = before.diagram.node? other)
    (hrecords : table.Records keys) (howned : ∀ key ∈ keys, key.sourceTable = table.name)
    (hkept : ∀ old, before.diagram.node? node = some old → ∀ key ∈ share node, key ∈ keys)
    (hpending : ∀ key, key ∈ after.pending ↔ key ∈ before.pending ∨ key ∈ keys) :
    after.Shares (Function.update share node keys) := by
  refine ⟨?_, ?_, ?_⟩
  · intro other found hfound
    by_cases hsame : other = node
    · subst hsame
      obtain rfl := Option.some.inj (hnode.symm.trans hfound)
      rwa [Function.update_self]
    · rw [hothers other hsame] at hfound
      rw [Function.update_of_ne hsame]
      exact h.records other found hfound
  · intro other found hfound
    by_cases hsame : other = node
    · subst hsame
      obtain rfl := Option.some.inj (hnode.symm.trans hfound)
      rwa [Function.update_self]
    · rw [hothers other hsame] at hfound
      rw [Function.update_of_ne hsame]
      exact h.owned other found hfound
  · intro key
    rw [hpending, h.pending]
    constructor
    · rintro (⟨other, found, hfound, hkey⟩ | hkey)
      · by_cases hsame : other = node
        · subst hsame
          refine ⟨other, table, hnode, ?_⟩
          rw [Function.update_self]
          exact hkept found hfound key hkey
        · refine ⟨other, found, (hothers other hsame).trans hfound, ?_⟩
          rwa [Function.update_of_ne hsame]
      · refine ⟨node, table, hnode, ?_⟩
        rwa [Function.update_self]
    · rintro ⟨other, found, hfound, hkey⟩
      by_cases hsame : other = node
      · rw [hsame, Function.update_self] at hkey
        exact .inr hkey
      · rw [hothers other hsame] at hfound
        rw [Function.update_of_ne hsame] at hkey
        exact .inl ⟨other, found, hfound, hkey⟩

/-- A new table brings its own share. -/
theorem Shares.declare (h : before.Shares share) {definition : Definition}
    (hdefinition : definition.Recorded)
    (hdiagram : after.diagram = before.diagram.insert definition.entity)
    (hpending : after.pending = before.pending ++ definition.foreignKeys) :
    after.Shares (Function.update share before.diagram.nextNode definition.foreignKeys) := by
  apply h.update
  · rw [hdiagram, Graph.node?_insert, if_pos rfl]
  · intro other hne
    rw [hdiagram, Graph.node?_insert, if_neg hne]
  · exact hdefinition.records
  · exact hdefinition.owned
  · intro old hold
    exact absurd (List.getElem?_eq_some_iff.mp hold).1 (Nat.lt_irrefl _)
  · intro key
    rw [hpending, List.mem_append]

/-- A change adds to the share of its table. -/
theorem Shares.change (h : before.Shares share) {node : Nat} {primaryKeys : List Text}
    {added : List Er.ForeignKey} {table : Er.Entity}
    (htable : before.diagram.node? node = some table)
    (hadded : ∀ key ∈ added, key.sourceTable = table.name)
    (hdiagram : after.diagram = before.diagram.modify node (·.applyKeys primaryKeys added))
    (hpending : after.pending = before.pending ++ added) :
    after.Shares (Function.update share node (share node ++ added)) := by
  apply h.update
  · show after.diagram.node? node = some (table.applyKeys primaryKeys added)
    rw [hdiagram, Graph.node?_modify, if_pos rfl, htable]
    rfl
  · intro other hne
    rw [hdiagram, Graph.node?_modify, if_neg hne.symm]
  · exact (h.records node table htable).applyKeys primaryKeys added
  · intro key hkey
    rw [Er.Entity.name_applyKeys]
    rcases List.mem_append.mp hkey with hold | hnew
    · exact h.owned node table htable key hold
    · exact hadded key hnew
  · intro old _ key hkey
    exact List.mem_append_left added hkey
  · intro key
    rw [hpending, List.mem_append, List.mem_append]
    constructor
    · exact Or.imp_right .inr
    · rintro (hwaiting | hold | hnew)
      · exact .inl hwaiting
      · exact .inl ((h.pending key).mpr ⟨node, table, htable, hold⟩)
      · exact .inr hnew

/-- Whatever a statement does, flags and waiting keys go on telling the same story. -/
theorem Recorded.readStatement (h : before.Recorded) (hsettled : before.Settled)
    (statement : Text) : (before.readStatement statement).Recorded := by
  obtain ⟨share, h⟩ := h
  cases effect_readStatement before statement with
  | declare definition declared diagram pending =>
      exact ⟨_, h.declare (recorded_of_declared? declared) diagram pending⟩
  | change table changes node change known diagram pending =>
      obtain ⟨found, hfound, -⟩ := hsettled.node?_of_lookup? known
      refine ⟨_, h.change hfound ?_ diagram pending⟩
      intro key hkey
      rw [← Er.Diagram.nameOf_eq hfound]
      exact sourceTable_of_mem_addedForeignKeys hkey
  | nothing declared unknown diagram pending =>
      refine ⟨share, ?_, ?_, ?_⟩
      · rw [diagram]
        exact h.records
      · rw [diagram]
        exact h.owned
      · rw [diagram, pending]
        exact h.pending

/-- What waits is for a table that is there. -/
theorem Recorded.exists_lookup? {progress : Progress} (h : progress.Recorded)
    (hsettled : progress.Settled) {key : Er.ForeignKey} (hkey : key ∈ progress.pending) :
    ∃ source, progress.diagram.lookup? key.sourceTable = some source := by
  obtain ⟨share, h⟩ := h
  obtain ⟨node, table, htable, hshare⟩ := (h.pending key).mp hkey
  apply hsettled.exists_lookup? (List.mem_of_getElem? htable)
  rw [h.owned node table htable key hshare]

end Progress

theorem recorded_readStatements (script title : Text) : (readStatements script title).Recorded := by
  have hboth : (readStatements script title).Settled ∧ (readStatements script title).Recorded := by
    unfold readStatements
    refine List.foldlRecOn (motive := fun progress => Progress.Settled progress ∧ progress.Recorded)
      _ _ ⟨Progress.settled_start title, Progress.recorded_start title⟩ ?_
    rintro progress ⟨hsettled, hrecorded⟩ statement -
    exact ⟨hsettled.readStatement statement, hrecorded.readStatement hsettled statement⟩
  exact hboth.2

/-! ### The finished diagram -/

namespace Progress

variable {progress : Progress}

/-- Where names are told apart, a name stands for the one table that has it. -/
theorem Settled.lookup?_of_name (h : progress.Settled)
    (hdistinct : (progress.names.map Text.lower).Nodup) {node : Nat} {table : Er.Entity}
    (htable : progress.diagram.node? node = some table) {name : Text}
    (hname : table.name.lower = name.lower) : progress.diagram.lookup? name = some node := by
  obtain ⟨found, hlookup⟩ := h.exists_lookup? (List.mem_of_getElem? htable) hname
  obtain ⟨other, hother, hothername⟩ := h.node?_of_lookup? hlookup
  have hlower : ∀ {place : Nat} {entity : Er.Entity},
      progress.diagram.node? place = some entity →
      (progress.names.map Text.lower)[place]? = some entity.name.lower := by
    intro place entity hentity
    rw [names, List.map_map, List.getElem?_map]
    exact congrArg (Option.map _) hentity
  have hlt := (List.getElem?_eq_some_iff.mp (hlower htable)).1
  have hsame : node = found := by
    apply (List.getElem?_inj hlt hdistinct).mp
    rw [hlower htable, hlower hother, hname, hothername]
  rw [hlookup, hsame]

/-- The keys for a table, by name, are those of its share. -/
theorem Shares.mem_share_iff {share : Nat → List Er.ForeignKey} (h : progress.Shares share)
    (hsettled : progress.Settled) (hdistinct : (progress.names.map Text.lower).Nodup)
    {node : Nat} {table : Er.Entity} (htable : progress.diagram.node? node = some table)
    (key : Er.ForeignKey) :
    key ∈ share node ↔ key ∈ progress.pending ∧ key.sourceTable.lower = table.name.lower := by
  constructor
  · intro hkey
    refine ⟨(h.pending key).mpr ⟨node, table, htable, hkey⟩, ?_⟩
    rw [h.owned node table htable key hkey]
  · rintro ⟨hkey, hname⟩
    obtain ⟨other, found, hfound, hshare⟩ := (h.pending key).mp hkey
    have hfoundname : found.name.lower = table.name.lower := by
      rw [← h.owned other found hfound key hshare, hname]
    have hsame := hsettled.lookup?_of_name hdistinct hfound hfoundname
    rw [hsettled.lookup?_of_name hdistinct htable rfl] at hsame
    rwa [Option.some.inj hsame]

/-- A key for a column becomes a relationship that starts there, where its target is shown. -/
theorem Settled.relationshipOf?_of_isKeyOf (h : progress.Settled)
    (hdistinct : (progress.names.map Text.lower).Nodup) {key : Er.ForeignKey} {source place : Nat}
    (hkey : Er.Diagram.IsKeyOf progress.diagram key source place) {target : Nat}
    (htarget : target ∈ progress.diagram.members)
    (hname : (progress.diagram.nameOf target).lower = key.targetTable.lower) :
    ∃ edge, Er.Diagram.relationshipOf? progress.diagram key = some edge ∧ edge.source = source ∧
      edge.target = target ∧ edge.label.sourceColumn = some place ∧
      edge.label.targetColumn
        = key.targetColumn.bind (Er.Diagram.columnIndex? progress.diagram target) := by
  obtain ⟨hsourcename, hplace⟩ := hkey
  obtain ⟨table, htable, hindex⟩ := Option.bind_eq_some_iff.mp hplace
  obtain ⟨targetTable, htargetTable⟩ : ∃ found, progress.diagram.node? target = some found :=
    ⟨_, List.getElem?_eq_getElem (h.inPool.members target htarget)⟩
  rw [Er.Diagram.nameOf_eq htable] at hsourcename
  rw [Er.Diagram.nameOf_eq htargetTable] at hname
  have hsourceKnown := h.lookup?_of_name hdistinct htable hsourcename.symm
  have htargetKnown := h.lookup?_of_name hdistinct htargetTable hname
  refine ⟨_, Er.Diagram.relationshipOf?_of_known hsourceKnown htargetKnown htable htargetTable,
    rfl, rfl, hindex, ?_⟩
  rw [Er.Diagram.columnIndex?_eq htargetTable]
  rfl

/-- A relationship comes from a key for the column that it starts at. -/
theorem Settled.isKeyOf_of_relationshipOf? (h : progress.Settled) {key : Er.ForeignKey}
    {edge : Edge Er.Relationship}
    (hedge : Er.Diagram.relationshipOf? progress.diagram key = some edge) {place : Nat}
    (hplace : edge.label.sourceColumn = some place) :
    Er.Diagram.IsKeyOf progress.diagram key edge.source place ∧
      edge.target ∈ progress.diagram.members ∧
      (progress.diagram.nameOf edge.target).lower = key.targetTable.lower := by
  obtain ⟨source, target, hsource, htarget, rfl⟩ :=
    (Er.Diagram.relationshipOf?_eq_some_iff ..).mp hedge
  obtain ⟨sourceTable, hsourceTable, hsourcename⟩ := h.node?_of_lookup? hsource
  obtain ⟨targetTable, htargetTable, htargetname⟩ := h.node?_of_lookup? htarget
  refine ⟨⟨?_, hplace⟩, (h.names.of_lookup? htarget).1, ?_⟩
  · show _ = (progress.diagram.nameOf source).lower
    rw [Er.Diagram.nameOf_eq hsourceTable, hsourcename]
  · show (progress.diagram.nameOf target).lower = _
    rw [Er.Diagram.nameOf_eq htargetTable, htargetname]

section

variable {share : Nat → List Er.ForeignKey} {source place : Nat} {column : Er.Column}

/-- A key for a column of a table is one from the share of the table. -/
theorem Shares.isKeyOf_iff (h : progress.Shares share) (hsettled : progress.Settled)
    (hdistinct : (progress.names.map Text.lower).Nodup) {table : Er.Entity}
    (htable : progress.diagram.node? source = some table) (key : Er.ForeignKey) :
    (key ∈ progress.pending ∧ Er.Diagram.IsKeyOf progress.diagram key source place) ↔
      key ∈ share source ∧ table.columnIndex? key.column = some place := by
  unfold Er.Diagram.IsKeyOf
  rw [Er.Diagram.nameOf_eq htable, Er.Diagram.columnIndex?_eq htable, ← and_assoc,
    h.mem_share_iff hsettled hdistinct htable]

/-- A flagged column has a key that says what the column refers to. -/
theorem Shares.exists_key (h : progress.Shares share) (hsettled : progress.Settled)
    (hdistinct : (progress.names.map Text.lower).Nodup)
    (hcolumn : Er.Diagram.column? progress.diagram source (some place) = some column)
    (hflag : column.isForeignKey = true) :
    ∃ key ∈ progress.pending, Er.Diagram.IsKeyOf progress.diagram key source place ∧
      column.referencedTable = some key.targetTable ∧
      column.referencedColumn = key.targetColumn := by
  obtain ⟨table, htable, hplace⟩ := Option.bind_eq_some_iff.mp hcolumn
  obtain ⟨key, hkey, hindex, hreference⟩ :=
    (h.records source table htable).explained place column hplace hflag
  obtain ⟨hpending, hkeyof⟩ := (h.isKeyOf_iff hsettled hdistinct htable key).mpr ⟨hkey, hindex⟩
  exact ⟨key, hpending, hkeyof, hreference⟩

/-- The column of a key is there, and flagged. -/
theorem Shares.flagged_of_isKeyOf (h : progress.Shares share) (hsettled : progress.Settled)
    (hdistinct : (progress.names.map Text.lower).Nodup) {key : Er.ForeignKey}
    (hkey : key ∈ progress.pending)
    (hkeyof : Er.Diagram.IsKeyOf progress.diagram key source place) :
    ∃ column, Er.Diagram.column? progress.diagram source (some place) = some column ∧
      column.isForeignKey = true := by
  obtain ⟨table, htable, -⟩ := Option.bind_eq_some_iff.mp hkeyof.2
  obtain ⟨hshare, hindex⟩ := (h.isKeyOf_iff hsettled hdistinct htable key).mp ⟨hkey, hkeyof⟩
  rw [Er.Diagram.column?_eq htable]
  exact (h.records source table htable).flagged key hshare place hindex

end

/-- The flags of what was read, and the relationships to come, have the same keys behind them. -/
theorem Shares.keysAgree {share : Nat → List Er.ForeignKey} (h : progress.Shares share)
    (hsettled : progress.Settled) (hdistinct : (progress.names.map Text.lower).Nodup) :
    Er.Diagram.KeysAgree progress.diagram
      (Er.Diagram.relationshipsOf progress.diagram progress.pending) progress.pending := by
  refine ⟨?_, ?_, ?_, ?_⟩
  · intro source place column hcolumn
    constructor
    · intro hflag
      obtain ⟨key, hkey, hkeyof, -⟩ := h.exists_key hsettled hdistinct hcolumn hflag
      exact ⟨key, hkey, hkeyof⟩
    · rintro ⟨key, hkey, hkeyof⟩
      obtain ⟨found, hfound, hflag⟩ := h.flagged_of_isKeyOf hsettled hdistinct hkey hkeyof
      rwa [Option.some.inj (hcolumn.symm.trans hfound)]
  · intro edge hedge place hplace
    obtain ⟨key, hkey, hmade⟩ := List.mem_filterMap.mp hedge
    obtain ⟨hkeyof, -⟩ := hsettled.isKeyOf_of_relationshipOf? hmade hplace
    exact h.flagged_of_isKeyOf hsettled hdistinct hkey hkeyof
  · intro source place column target hcolumn hflag htarget hreferenced
    -- The key that explains the flag is the one that the relationship comes from.
    obtain ⟨key, hkey, hkeyof, htable, hreference⟩ := h.exists_key hsettled hdistinct hcolumn hflag
    rw [htable] at hreferenced
    obtain ⟨edge, hmade, hends⟩ := hsettled.relationshipOf?_of_isKeyOf hdistinct hkeyof htarget
      (Option.some.inj hreferenced).symm
    rw [hreference]
    exact ⟨edge, List.mem_filterMap.mpr ⟨key, hkey, hmade⟩, hends⟩
  · intro source place column hcolumn
    constructor
    · intro hnone key hkey hkeyof target htarget hname
      obtain ⟨edge, hmade, hsource, -, hplace, -⟩ :=
        hsettled.relationshipOf?_of_isKeyOf hdistinct hkeyof htarget hname
      exact hnone edge (List.mem_filterMap.mpr ⟨key, hkey, hmade⟩) hsource hplace
    · intro hnone edge hedge hsource hplace
      obtain ⟨key, hkey, hmade⟩ := List.mem_filterMap.mp hedge
      obtain ⟨hkeyof, htarget, hname⟩ := hsettled.isKeyOf_of_relationshipOf? hmade hplace
      rw [hsource] at hkeyof
      exact hnone key hkey hkeyof edge.target htarget hname

end Progress

/-- **Flags and relationships tell the same story.**  Where the tables of a script are told apart by
their names, the keys that its statements record are behind both. -/
theorem keysAgree_read (script title : Text) (grid : Option Er.Grid)
    (hdistinct : ((read script title grid).diagram.nodes.map fun table => table.name.lower).Nodup) :
    (read script title grid).diagram.KeysAgree (read script title grid).diagram.shownEdges
      (readStatements script title).pending := by
  obtain ⟨share, hshares⟩ := recorded_readStatements script title
  have htables := congrArg (List.map fun table => Text.lower table.1)
    (tables_read script title grid)
  rw [Er.Diagram.tables, List.map_map, List.map_map] at htables
  have hnames : ((readStatements script title).names.map Text.lower).Nodup := by
    rw [Progress.names, List.map_map]
    exact htables ▸ hdistinct
  rw [shownEdges_read]
  exact (hshares.keysAgree (settled_readStatements script title) hnames).of_sameTables
    (sameTables_read script title grid)

/-- Orders with a buyer further down. -/
def orders : Text :=
  "CREATE TABLE orders (buyer INT REFERENCES Customer(id)); CREATE TABLE customer (id INT);".toList

/-- The flag of the buyer calls for a relationship. -/
theorem keysAgree_read_orders :
    ((read orders "Shop".toList none).diagram.nodes.map fun table => table.name.lower).Nodup ∧
      ∃ edge ∈ (read orders "Shop".toList none).diagram.shownEdges,
        edge.source = 0 ∧ edge.target = 1 ∧ edge.label.sourceColumn = some 0 := by
  obtain ⟨hdistinct, hbuyer, hmember, hname⟩ :
      ((read orders "Shop".toList none).diagram.nodes.map fun table => table.name.lower).Nodup ∧
      (read orders "Shop".toList none).diagram.column? 0 (some 0)
        = some
          { name := "buyer".toList, type := "INT".toList, isForeignKey := true
            referencedTable := some "Customer".toList, referencedColumn := some "id".toList } ∧
      1 ∈ (read orders "Shop".toList none).diagram.members ∧
      "customer".toList = ((read orders "Shop".toList none).diagram.nameOf 1).lower := by
    decide +kernel
  have hagree := keysAgree_read orders "Shop".toList none hdistinct
  obtain ⟨edge, hedge, hsource, htarget, hplace, -⟩ :=
    hagree.related 0 0 _ 1 hbuyer rfl hmember (congrArg some hname)
  exact ⟨hdistinct, edge, hedge, hsource, htarget, hplace⟩

end Diagrams.Schema
