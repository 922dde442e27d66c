/-
Tables with keys in any place.

A key of a table may stand with its column, behind all columns, or in a change right after the
table.  Each of these is read by other patterns, and at another time, but all of them mark the same
columns and declare the same foreign keys: a written table is read as its columns with all of its
keys applied, wherever they stand (`read_keyedScript`).  So two tables that agree on this can stand
for each other in a script (`diagram_read_of_agrees`).
-/
import Diagrams.Proofs.Schema.Added

namespace Diagrams.Schema.Written

/-- A table with its keys where they stand. -/
structure KeyedTable where
  /-- Its name. -/
  name : Name
  /-- Its columns, in order, with the keys that stand with them. -/
  columns : List LinkedColumn := []
  /-- The keys behind the columns, in order. -/
  keys : List Key := []
  /-- The keys that are added right after the table, in order. -/
  added : List Key := []

namespace KeyedTable

variable (table : KeyedTable)

/-- The parts of a table: first its columns, then the keys behind them. -/
def parts : List Text := table.columns.map LinkedColumn.text ++ table.keys.map Key.text

/-- The statement that declares the table, without its semicolon. -/
def body : Text :=
  spaced ["CREATE", "TABLE"] ++
    (table.name.text ++ ' ' :: bracketed (Text.joined partSeparator table.parts))

/-- The statement that declares the table and those that add keys to it, without their
semicolons. -/
def bodies : List Text := table.body :: table.added.map (Key.added · table.name)

/-- The keys that are declared with the table. -/
def declaredKeys : List Key := table.columns.flatMap LinkedColumn.keys ++ table.keys

/-- All keys of the table, in order. -/
def allKeys : List Key := table.declaredKeys ++ table.added

/-- The foreign keys of the table, in order. -/
def references : List Er.ForeignKey := table.allKeys.flatMap (Key.references table.name.name)

/-- The table that a written table stands for: its columns, with all keys applied to them. -/
def entity : Er.Entity :=
  Er.Entity.applyKeys { name := table.name.name, columns := table.columns.map LinkedColumn.plain }
    (primaryNames table.allKeys) table.references

/-- The name of a table that is changed is not taken for another word. -/
structure WellFormed : Prop where
  name : table.name.IsPlain
  columns : ∀ column ∈ table.columns, column.WellFormed
  keys : ∀ key ∈ table.keys, key.WellFormed
  added : ∀ key ∈ table.added, key.WellFormed

instance : Decidable table.WellFormed :=
  decidable_of_iff (table.name.IsPlain ∧ (∀ column ∈ table.columns, column.WellFormed) ∧
      (∀ key ∈ table.keys, key.WellFormed) ∧ ∀ key ∈ table.added, key.WellFormed)
    ⟨fun h => ⟨h.1, h.2.1, h.2.2.1, h.2.2.2⟩, fun h => ⟨h.name, h.columns, h.keys, h.added⟩⟩

end KeyedTable

/-- The script that declares some tables and adds keys to each. -/
def keyedScript (tables : List KeyedTable) : Text :=
  tables.flatMap fun table => table.bodies.flatMap fun body => body ++ [';']

/-! ### What scans see -/

namespace KeyedTable

variable {table : KeyedTable}

theorem partsWritten (h : table.WellFormed) : PartsWritten table.parts := by
  refine .of_uncut ?_ ?_
  · intro part hpart
    rcases List.mem_append.mp hpart with hmem | hmem
    · obtain ⟨column, hcolumn, rfl⟩ := List.mem_map.mp hmem
      exact LinkedColumn.solid (h.columns column hcolumn)
    · obtain ⟨key, -, rfl⟩ := List.mem_map.mp hmem
      exact key.solid
  · intro isQuote hquotes part hpart
    rcases List.mem_append.mp hpart with hmem | hmem
    · obtain ⟨column, hcolumn, rfl⟩ := List.mem_map.mp hmem
      exact LinkedColumn.uncut hquotes (h.columns column hcolumn)
    · obtain ⟨key, hkey, rfl⟩ := List.mem_map.mp hmem
      exact Key.uncut hquotes (h.keys key hkey)

theorem allWritten_body (h : table.WellFormed) : AllWritten table.body := by
  refine allWritten_create h.name.1 fun part hpart => ?_
  rcases List.mem_append.mp hpart with hmem | hmem
  · obtain ⟨column, hcolumn, rfl⟩ := List.mem_map.mp hmem
    exact LinkedColumn.allWritten (h.columns column hcolumn)
  · obtain ⟨key, hkey, rfl⟩ := List.mem_map.mp hmem
    exact Key.allWritten (h.keys key hkey)

theorem allWritten_bodies (h : table.WellFormed) : ∀ body ∈ table.bodies, AllWritten body := by
  refine List.forall_mem_cons.mpr ⟨allWritten_body h, fun body hbody => ?_⟩
  obtain ⟨key, hkey, rfl⟩ := List.mem_map.mp hbody
  exact Key.allWritten_added (h.added key hkey) h.name.1

theorem solid_bodies (table : KeyedTable) : ∀ body ∈ table.bodies, Solid body := by
  refine List.forall_mem_cons.mpr ⟨solid_create table.name _, fun body hbody => ?_⟩
  obtain ⟨key, -, rfl⟩ := List.mem_map.mp hbody
  exact key.solid_added table.name

end KeyedTable

/-- A script falls into the statements of its tables. -/
theorem statements_keyedScript {tables : List KeyedTable} (h : ∀ table ∈ tables, table.WellFormed) :
    statements (keyedScript tables)
      = tables.flatMap fun table => table.bodies.map fun body => body ++ [';'] := by
  have hscript : keyedScript tables
      = (tables.flatMap KeyedTable.bodies).flatMap fun body => body ++ [';'] :=
    List.flatMap_assoc.symm
  have hsolid : ∀ body ∈ tables.flatMap KeyedTable.bodies, Solid body := by
    intro body hbody
    obtain ⟨table, -, hbody⟩ := List.mem_flatMap.mp hbody
    exact table.solid_bodies body hbody
  rw [hscript, statements_flatMap (fun body => body) _ (fun body hbody => ?_)
    (fun body hbody => (hsolid body hbody).ne_nil) (fun body hbody => (hsolid body hbody).head?)
    (fun body hbody => (hsolid body hbody).getLast?), List.map_flatMap]
  obtain ⟨table, htable, hbody⟩ := List.mem_flatMap.mp hbody
  exact (KeyedTable.allWritten_bodies (h table htable) body hbody).ne_semicolon

/-! ### Table by table -/

theorem foldlM_readPart_linked {columns : List LinkedColumn}
    (h : ∀ column ∈ columns, column.WellFormed) (draft : Draft) :
    (columns.map LinkedColumn.text).foldlM readPart draft = .ok { draft with
      columns := draft.columns ++ columns.map LinkedColumn.plain
      primaryKeys := draft.primaryKeys ++ primaryNames (columns.flatMap LinkedColumn.keys)
      foreignKeys := draft.foreignKeys ++
        (columns.flatMap LinkedColumn.keys).flatMap (Key.references draft.table) } := by
  induction columns generalizing draft with
  | nil => simp [primaryNames, pure, Except.pure]
  | cons column columns ih =>
      obtain ⟨hcolumn, hcolumns⟩ := List.forall_mem_cons.mp h
      rw [List.map_cons, foldlM_readPart_cons]
      refine ⟨_, LinkedColumn.readPart draft hcolumn, ?_⟩
      rw [ih hcolumns]
      simp [primaryNames]

namespace KeyedTable

variable {table : KeyedTable}

/-- What is read of a table before any key is added to it. -/
def definition (table : KeyedTable) : Definition where
  entity := Er.Entity.applyKeys
    { name := table.name.name, columns := table.columns.map LinkedColumn.plain }
    (primaryNames table.declaredKeys) (table.declaredKeys.flatMap (Key.references table.name.name))
  foreignKeys := table.declaredKeys.flatMap (Key.references table.name.name)

theorem readTable_body (h : table.WellFormed) :
    readTable (table.body ++ [';']) = .ok table.definition := by
  have hbody : table.body ++ [';'] = _ := create_append table.name _ [';']
  have hread : table.parts.foldlM readPart { table := table.name.name } = .ok
      { table := table.name.name
        columns := table.columns.map LinkedColumn.plain
        primaryKeys := primaryNames table.declaredKeys
        foreignKeys := table.declaredKeys.flatMap (Key.references table.name.name) } := by
    rw [parts, List.foldlM_append, foldlM_readPart_linked h.columns]
    refine (foldlM_readPart_keys h.keys _).trans ?_
    simp [declaredKeys, primaryNames]
  rw [readTable_of_parts h.name.1 (partsWritten h) hbody hread]
  rfl

theorem readStatement_body (h : table.WellFormed) (progress : Progress) :
    progress.readStatement (table.body ++ [';']) = progress.addTable table.definition := by
  have hbody : table.body ++ [';'] = _ := create_append table.name _ [';']
  unfold Progress.readStatement
  simp only [stripComments_semicolon (allWritten_body h), matchStart?_alterTable_create hbody,
    Progress.defineTable, readTable_body h]

end KeyedTable

/-- Keys that are added right after a table are keys of the table. -/
theorem foldl_readStatement_added {table : Name} (htable : table.IsPlain) {keys : List Key}
    (h : ∀ key ∈ keys, key.WellFormed) {progress : Progress} {diagram : Er.Diagram}
    {made : Er.Entity} (hdiagram : progress.diagram = diagram.insert made)
    (hmade : made.name = table.name) :
    let references := keys.flatMap (Key.references table.name)
    ((keys.map (Key.added · table)).map fun body => body ++ [';']).foldl
      Progress.readStatement progress = { progress with
          diagram := diagram.insert (made.applyKeys (primaryNames keys) references)
          pending := progress.pending ++ references } := by
  induction keys generalizing progress made with
  | nil =>
      have hnone : made.applyKeys (primaryNames []) [] = made := rfl
      simp [hnone, ← hdiagram]
  | cons key keys ih =>
      obtain ⟨hkey, hkeys⟩ := List.forall_mem_cons.mp h
      have hname : (made.applyKeys (primaryNames [key]) (key.references table.name)).name
          = table.name := (Er.Entity.name_applyKeys _ _ _).trans hmade
      rw [List.map_cons, List.map_cons, List.foldl_cons,
        readStatement_added hkey htable hdiagram hmade]
      dsimp only
      rw [ih hkeys rfl hname, Er.Entity.applyKeys_applyKeys]
      simp [primaryNames]

/-- The statements of a table add it with all of its keys. -/
theorem foldl_readStatement_bodies {table : KeyedTable} (h : table.WellFormed)
    (progress : Progress) :
    let after := (table.bodies.map fun body => body ++ [';']).foldl Progress.readStatement progress
    after.diagram = progress.diagram.insert table.entity ∧
      after.pending = progress.pending ++ table.references ∧ after.skipped = progress.skipped := by
  have hname : table.definition.entity.name = table.name.name := Er.Entity.name_applyKeys _ _ _
  have hdiagram := Progress.diagram_addTable progress table.definition
  have hadded := foldl_readStatement_added h.name h.added hdiagram hname
  have hentity : table.definition.entity.applyKeys (primaryNames table.added)
      (table.added.flatMap (Key.references table.name.name)) = table.entity := by
    unfold KeyedTable.definition KeyedTable.entity KeyedTable.references KeyedTable.allKeys
    rw [Er.Entity.applyKeys_applyKeys, List.flatMap_append]
    simp [primaryNames]
  unfold KeyedTable.bodies
  rw [List.map_cons, List.foldl_cons, KeyedTable.readStatement_body h, hadded]
  refine ⟨congrArg progress.diagram.insert hentity, ?_, Progress.skipped_addTable _ _⟩
  show (progress.addTable table.definition).pending ++ _ = _
  rw [Progress.pending_addTable, List.append_assoc]
  simp [KeyedTable.definition, KeyedTable.references, KeyedTable.allKeys]

theorem foldl_readStatement_keyed {tables : List KeyedTable}
    (h : ∀ table ∈ tables, table.WellFormed) (progress : Progress) :
    let after := (tables.flatMap fun table => table.bodies.map fun body => body ++ [';']).foldl
      Progress.readStatement progress
    after.diagram = (tables.map KeyedTable.entity).foldl Graph.insert progress.diagram ∧
      after.pending = progress.pending ++ tables.flatMap KeyedTable.references ∧
      after.skipped = progress.skipped := by
  induction tables generalizing progress with
  | nil => simp
  | cons table tables ih =>
      obtain ⟨htable, htables⟩ := List.forall_mem_cons.mp h
      obtain ⟨hdiagram, hpending, hskipped⟩ := foldl_readStatement_bodies htable progress
      rw [List.flatMap_cons, List.foldl_append]
      obtain ⟨hdiagrams, hpendings, hskippeds⟩ := ih htables
        ((table.bodies.map fun body => body ++ [';']).foldl Progress.readStatement progress)
      refine ⟨?_, ?_, hskippeds.trans hskipped⟩
      · rw [hdiagrams, hdiagram]
        rfl
      · rw [hpendings, hpending, List.append_assoc, List.flatMap_cons]

/-! ### Whole scripts -/

/-- The diagram that some tables stand for. -/
def keyedDiagram (tables : List KeyedTable) (title : Text) (grid : Option Er.Grid) : Er.Diagram :=
  let shown : Er.Diagram := (tables.map KeyedTable.entity).foldl Graph.insert (.empty title)
  let connected := shown.resolveForeignKeys (tables.flatMap KeyedTable.references)
  match grid with
  | some grid => connected.autoLayout grid
  | none => connected

/-- **A script is read as its tables with all of their keys**, wherever the keys stand,
and no statement is skipped. -/
theorem read_keyedScript {tables : List KeyedTable} (h : ∀ table ∈ tables, table.WellFormed)
    (title : Text) (grid : Option Er.Grid) :
    (read (keyedScript tables) title grid).diagram = keyedDiagram tables title grid ∧
      (read (keyedScript tables) title grid).skipped = 0 := by
  obtain ⟨hdiagram, hpending, hskipped⟩ := foldl_readStatement_keyed h { diagram := .empty title }
  rw [← statements_keyedScript h] at hdiagram hpending hskipped
  refine ⟨?_, hskipped⟩
  unfold read keyedDiagram readStatements
  dsimp only
  rw [hdiagram, hpending]
  rfl

/-- Two tables stand for the same table, and for foreign keys that differ at most in the case of
their columns. -/
structure KeyedTable.Agrees (table other : KeyedTable) : Prop where
  entity : table.entity = other.entity
  references : table.references.map Er.ForeignKey.lowered
    = other.references.map Er.ForeignKey.lowered

/-- Tables that agree stand for each other in a script. -/
theorem diagram_read_of_agrees {before after : List KeyedTable} {table other : KeyedTable}
    (h : table.Agrees other) (hbefore : ∀ table ∈ before, table.WellFormed)
    (hafter : ∀ table ∈ after, table.WellFormed) (htable : table.WellFormed)
    (hother : other.WellFormed) (title : Text) (grid : Option Er.Grid) :
    (read (keyedScript (before ++ table :: after)) title grid).diagram
      = (read (keyedScript (before ++ other :: after)) title grid).diagram := by
  have hall : ∀ {made : KeyedTable}, made.WellFormed →
      ∀ table ∈ before ++ made :: after, table.WellFormed := fun hmade =>
    List.forall_mem_append.mpr ⟨hbefore, List.forall_mem_cons.mpr ⟨hmade, hafter⟩⟩
  have hentities : (before ++ table :: after).map KeyedTable.entity
      = (before ++ other :: after).map KeyedTable.entity := by
    rw [List.map_append, List.map_cons, List.map_append, List.map_cons, h.entity]
  have hreferences : ((before ++ table :: after).flatMap KeyedTable.references).map
        Er.ForeignKey.lowered
      = ((before ++ other :: after).flatMap KeyedTable.references).map Er.ForeignKey.lowered := by
    simp only [List.flatMap_append, List.flatMap_cons, List.map_append, h.references]
  rw [(read_keyedScript (hall htable) title grid).1, (read_keyedScript (hall hother) title grid).1]
  unfold keyedDiagram
  dsimp only
  rw [hentities, Er.Diagram.resolveForeignKeys_of_lowered _ hreferences]

end Diagrams.Schema.Written
