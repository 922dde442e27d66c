/-
What a statement does to the reading of a script.

Whether a statement declares a table or changes one, and what it says about it, can be told from the
statement alone: `declared?` and `change?` do not know what was read before.  The tables in front of
a statement matter in one place only, where the name of a changed table is looked up.  `Effect` puts
this together, once for every kind of statement, and what a whole script does follows from it by
induction over the statements.
-/
import Diagrams.Proofs.Er.Link
import Diagrams.Proofs.Schema.Coherent

namespace Diagrams.Schema

/-! ### Statements by themselves -/

/-- The columns of the primary keys that a change adds. -/
def addedPrimaryKeys (changes : Text) : List Text :=
  (Grammar.addPrimaryKey.findAll changes).flatMap fun found => identifierList (found.text .columns)

/-- The foreign keys that a change adds to a table. -/
def addedForeignKeys (table changes : Text) : List Er.ForeignKey :=
  (Grammar.addForeignKey.findAll changes).flatMap fun found =>
    foreignKeys table (found.text .columns) (found.text .target) (found.text? .targetColumns)

/-- The table that a statement changes, and the changes, if that is what it does. -/
def change? (statement : Text) : Option (Text × Text) :=
  (Grammar.alterTable.matchStart? (stripComments statement)).map fun found =>
    (found.text .name, found.text .options)

/-- What a table definition declares, read strictly if that works and permissively if not. -/
def definition? (statement : Text) : Option Definition :=
  match readTable statement with
  | .ok definition => some definition
  | .error _ => (salvageTable statement).map Salvage.definition

/-- The table that a statement declares, if that is what it does. -/
def declared? (statement : Text) : Option Definition :=
  match change? statement with
  | none => definition? (stripComments statement)
  | some _ => none

/-- A statement that changes a table declares none. -/
theorem declared?_of_change {statement : Text} (h : change? statement ≠ none) :
    declared? statement = none := by
  unfold declared?
  cases hchange : change? statement with
  | none => exact absurd hchange h
  | some change => rfl

theorem declared?_of_change_eq_some {statement : Text} {change : Text × Text}
    (h : change? statement = some change) : declared? statement = none :=
  declared?_of_change (h ▸ Option.some_ne_none change)

theorem declared?_of_no_change {statement : Text} (h : change? statement = none) :
    declared? statement = definition? (stripComments statement) := by
  unfold declared?
  rw [h]

/-! ### Statements after one another -/

namespace Progress

/-- What a statement does to the diagram and to the foreign keys that wait. -/
inductive Effect (before : Progress) (statement : Text) (after : Progress) : Prop
  /-- It adds a table. -/
  | declare (definition : Definition) (declared : declared? statement = some definition)
      (diagram : after.diagram = before.diagram.insert definition.entity)
      (pending : after.pending = before.pending ++ definition.foreignKeys)
  /-- It marks keys of a table that is there. -/
  | change (table changes : Text) (node : Nat) (change : change? statement = some (table, changes))
      (known : before.diagram.lookup? table = some node)
      (diagram : after.diagram = before.diagram.modify node (·.applyKeys (addedPrimaryKeys changes)
        (addedForeignKeys (before.diagram.nameOf node) changes)))
      (pending : after.pending
        = before.pending ++ addedForeignKeys (before.diagram.nameOf node) changes)
  /-- It does nothing, and if it would change a table, then that table is not there. -/
  | nothing (declared : declared? statement = none)
      (unknown : ∀ table changes, change? statement = some (table, changes) →
        before.diagram.lookup? table = none)
      (diagram : after.diagram = before.diagram) (pending : after.pending = before.pending)

theorem pending_foldl_report {α : Type} (event : α → Event) (items : List α) (progress : Progress) :
    (items.foldl (fun p item => p.report (event item)) progress).pending = progress.pending := by
  induction items generalizing progress with
  | nil => rfl
  | cons item items ih => rw [List.foldl_cons, ih]; rfl

theorem effect_changeTable (progress : Progress) {statement table changes : Text}
    (h : change? statement = some (table, changes)) :
    Effect progress statement (progress.changeTable table changes) := by
  have hdeclared : declared? statement = none := declared?_of_change_eq_some h
  unfold Progress.changeTable
  cases hlookup : progress.diagram.lookup? table with
  | none =>
      refine .nothing hdeclared ?_ rfl rfl
      intro other otherChanges hother
      obtain ⟨rfl, -⟩ := Prod.mk.inj (Option.some.inj (h.symm.trans hother))
      exact hlookup
  | some node => exact .change table changes node h hlookup rfl rfl

theorem effect_defineTable (progress : Progress) {statement : Text}
    (h : change? statement = none) :
    Effect progress statement (progress.defineTable (stripComments statement)) := by
  have hunknown : ∀ table changes, change? statement = some (table, changes) →
      progress.diagram.lookup? table = none := by
    intro table changes hchange
    rw [h] at hchange
    exact absurd hchange.symm (Option.some_ne_none _)
  have hdeclared := declared?_of_no_change h
  unfold definition? at hdeclared
  unfold Progress.defineTable
  cases hread : readTable (stripComments statement) with
  | ok definition =>
      rw [hread] at hdeclared
      exact .declare definition hdeclared rfl rfl
  | error error =>
      rw [hread] at hdeclared
      dsimp only
      cases hsalvage : salvageTable (stripComments statement) with
      | none =>
          rw [hsalvage] at hdeclared
          exact .nothing hdeclared hunknown rfl rfl
      | some salvage =>
          rw [hsalvage] at hdeclared
          -- The notices about unreadable parts come in between and leave the tables alone.
          refine .declare salvage.definition hdeclared ?_ ?_
          · rw [diagram_addTable, diagram_foldl_report]
            rfl
          · rw [pending_addTable, pending_foldl_report]
            rfl

/-- Reading a statement has the effect that can be told from the statement. -/
theorem effect_readStatement (progress : Progress) (statement : Text) :
    Effect progress statement (progress.readStatement statement) := by
  unfold Progress.readStatement
  dsimp only
  cases hmatch : Grammar.alterTable.matchStart? (stripComments statement) with
  | some found =>
      apply effect_changeTable
      rw [change?, hmatch]
      rfl
  | none =>
      apply effect_defineTable
      rw [change?, hmatch]
      rfl

/-! ### Between two statements -/

/-- What holds between two statements beside `Sound`: a table is known by its place among the tables
that were read, and names are told apart by their lower case. -/
structure Settled (progress : Progress) : Prop extends Sound progress where
  members : progress.diagram.members = List.range progress.diagram.pool.length
  key : ∀ name, progress.diagram.registry.key name = name.lower
  noEdgePool : progress.diagram.edgePool = []

theorem settled_start (title : Text) : Settled { diagram := .empty title } :=
  { sound_start title with members := rfl, key := fun _ => rfl, noEdgePool := rfl }

/-- The names of the tables that were read. -/
def names (progress : Progress) : List Text := progress.diagram.pool.map Er.Entity.name

theorem map_name_modify {tables : List Er.Entity} (node : Nat) {change : Er.Entity → Er.Entity}
    (h : ∀ table, (change table).name = table.name) :
    (tables.modify node change).map Er.Entity.name = tables.map Er.Entity.name := by
  refine List.ext_getElem? ?_
  intro place
  rw [List.getElem?_map, List.getElem?_map, List.getElem?_modify]
  cases tables[place]? with
  | none => rfl
  | some table =>
      by_cases hplace : node = place
      · simp [hplace, h]
      · simp [hplace]

namespace Effect

variable {before after : Progress} {statement : Text}

theorem settled (h : Effect before statement after) (hbefore : before.Settled)
    (hsound : after.Sound) : after.Settled := by
  refine { hsound with members := ?_, key := ?_, noEdgePool := ?_ }
  · cases h with
    | declare definition declared diagram pending =>
        rw [diagram]
        exact Graph.members_insert_range _ hbefore.members
    | change table changes node change known diagram pending =>
        rw [diagram]
        show before.diagram.members = List.range (before.diagram.pool.modify node _).length
        rw [List.length_modify]
        exact hbefore.members
    | nothing declared unknown diagram pending =>
        rw [diagram]
        exact hbefore.members
  · intro name
    cases h with
    | declare definition declared diagram pending =>
        rw [diagram, Graph.registry_insert, Registry.key_register]
        exact hbefore.key name
    | change table changes node change known diagram pending =>
        rw [diagram]
        exact hbefore.key name
    | nothing declared unknown diagram pending =>
        rw [diagram]
        exact hbefore.key name
  · cases h with
    | declare definition declared diagram pending =>
        rw [diagram]
        exact hbefore.noEdgePool
    | change table changes node change known diagram pending =>
        rw [diagram]
        exact hbefore.noEdgePool
    | nothing declared unknown diagram pending =>
        rw [diagram]
        exact hbefore.noEdgePool

/-- A statement adds the name of the table that it declares, and no name goes away. -/
theorem names_eq (h : Effect before statement after) :
    after.names = before.names ++ (declared? statement).toList.map (·.entity.name) := by
  unfold names
  cases h with
  | declare definition declared diagram pending =>
      rw [diagram, Graph.pool_insert, List.map_append, declared]
      rfl
  | change table changes node change known diagram pending =>
      have hdeclared : declared? statement = none := declared?_of_change_eq_some change
      rw [diagram, hdeclared]
      show (before.diagram.pool.modify node _).map Er.Entity.name = _
      rw [map_name_modify node fun table => table.name_applyKeys _ _]
      simp
  | nothing declared unknown diagram pending =>
      rw [diagram, declared]
      simp

end Effect

namespace Settled

variable {progress : Progress}

theorem readStatement (h : progress.Settled) (statement : Text) :
    (progress.readStatement statement).Settled :=
  (effect_readStatement progress statement).settled h (h.toSound.readStatement statement)

theorem foldl_readStatement (h : progress.Settled) (statements : List Text) :
    (statements.foldl Progress.readStatement progress).Settled :=
  List.foldlRecOn (motive := Settled) statements _ h
    fun _ hsettled statement _ => hsettled.readStatement statement

/-- The tables that are shown are those that were read. -/
theorem nodes (h : progress.Settled) : progress.diagram.nodes = progress.diagram.pool := by
  unfold Graph.nodes
  rw [h.members]
  exact Graph.filterMap_getElem?_range progress.diagram.pool

/-- What a name stands for is a table of that name. -/
theorem node?_of_lookup? (h : progress.Settled) {name : Text} {node : Nat}
    (hlookup : progress.diagram.lookup? name = some node) :
    ∃ table, progress.diagram.node? node = some table ∧ table.name.lower = name.lower := by
  rw [h.names.lookup?_eq] at hlookup
  obtain ⟨hmember, hkey⟩ := Graph.mem_of_latestNamed? hlookup
  have hnode := List.getElem?_eq_getElem (h.inPool.members node hmember)
  rw [h.key, h.key, Er.Diagram.nameOf_eq hnode] at hkey
  exact ⟨_, hnode, hkey⟩

theorem namesMade (h : progress.Settled) : Er.Diagram.NamesMade progress.diagram := by
  intro name node hlookup
  obtain ⟨table, htable, -⟩ := h.node?_of_lookup? hlookup
  exact ⟨table, htable⟩

/-- A name stands for nothing where no table has it. -/
theorem lookup?_eq_none_iff (h : progress.Settled) (name : Text) :
    progress.diagram.lookup? name = none ↔
      ∀ table ∈ progress.diagram.pool, table.name.lower ≠ name.lower := by
  rw [h.names.lookup?_eq, Graph.latestNamed?, List.find?_eq_none]
  simp only [List.mem_reverse, h.members, List.mem_range, h.key, decide_eq_true_eq]
  have hname : ∀ {node} (hnode : node < progress.diagram.pool.length),
      progress.diagram.nameOf node = progress.diagram.pool[node].name :=
    fun hnode => Er.Diagram.nameOf_eq (List.getElem?_eq_getElem hnode)
  constructor
  · intro hnone table htable
    obtain ⟨node, hnode, rfl⟩ := List.mem_iff_getElem.mp htable
    rw [← hname hnode]
    exact hnone node hnode
  · intro hnone node hnode
    rw [hname hnode]
    exact hnone _ (List.getElem_mem hnode)

/-- The name of a table that was read stands for a table. -/
theorem exists_lookup? (h : progress.Settled) {table : Er.Entity}
    (htable : table ∈ progress.diagram.pool) {name : Text} (hname : table.name.lower = name.lower) :
    ∃ node, progress.diagram.lookup? name = some node := by
  cases hlookup : progress.diagram.lookup? name with
  | some node => exact ⟨node, rfl⟩
  | none => exact absurd hname ((h.lookup?_eq_none_iff name).mp hlookup table htable)

end Settled

/-- The names after some statements are those of the tables that they declare. -/
theorem names_foldl_readStatement (progress : Progress) (statements : List Text) :
    (statements.foldl Progress.readStatement progress).names
      = progress.names ++ (statements.filterMap declared?).map (·.entity.name) := by
  induction statements generalizing progress with
  | nil => simp
  | cons statement statements ih =>
      rw [List.foldl_cons, ih, (effect_readStatement progress statement).names_eq,
        List.append_assoc]
      cases hdeclared : declared? statement <;> simp [hdeclared]

end Progress

theorem settled_readStatements (script title : Text) : (readStatements script title).Settled :=
  (Progress.settled_start title).foldl_readStatement (statements script)

/-! ### What is shown at the end -/

theorem sameTables_read (script title : Text) (grid : Option Er.Grid) :
    Er.Diagram.SameTables (readStatements script title).diagram
      (read script title grid).diagram := by
  have hconnected := Er.Diagram.sameTables_resolveForeignKeys (readStatements script title).diagram
    (readStatements script title).pending
  cases grid with
  | none => exact hconnected
  | some grid => exact hconnected.trans (Er.Diagram.sameTables_autoLayout _ grid)

/-- The relationships of a script are those of its foreign keys. -/
theorem shownEdges_read (script title : Text) (grid : Option Er.Grid) :
    (read script title grid).diagram.shownEdges
      = Er.Diagram.relationshipsOf (readStatements script title).diagram
          (readStatements script title).pending := by
  have hsettled := settled_readStatements script title
  have hconnected := Er.Diagram.shownEdges_resolveForeignKeys hsettled.noEdges hsettled.noEdgePool
    (readStatements script title).pending
  cases grid with
  | none => exact hconnected
  | some grid => exact (Er.Diagram.shownEdges_autoLayout grid).trans hconnected

/-- Where no places are given out, the tables are shown as the statements made them. -/
theorem nodes_read_none (script title : Text) :
    (read script title none).diagram.nodes = (readStatements script title).diagram.pool := by
  show (Er.Diagram.resolveForeignKeys _ _).nodes = _
  unfold Er.Diagram.resolveForeignKeys
  rw [Graph.foldl_connect]
  exact (settled_readStatements script title).nodes

/-- The tables of a script are those that its statements made. -/
theorem tables_read (script title : Text) (grid : Option Er.Grid) :
    (read script title grid).diagram.tables
      = (readStatements script title).diagram.pool.map fun table =>
        (table.name, table.columns) := by
  rw [(sameTables_read script title grid).tables_eq, Er.Diagram.tables,
    (settled_readStatements script title).nodes]

theorem links_read (script title : Text) (grid : Option Er.Grid) :
    (read script title grid).diagram.links
      = (Er.Diagram.relationshipsOf (readStatements script title).diagram
          (readStatements script title).pending).map
          (Er.Diagram.link (readStatements script title).diagram) := by
  have hlink : (read script title grid).diagram.link
      = Er.Diagram.link (readStatements script title).diagram := by
    funext edge
    unfold Er.Diagram.link
    rw [(sameTables_read script title grid).nameOf, (sameTables_read script title grid).nameOf]
  rw [Er.Diagram.links, shownEdges_read, hlink]

end Diagrams.Schema
