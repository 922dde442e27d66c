/-
Tables may be declared in any order.

What a script has declared so far is told by a catalog: for every name the table that it stands for.
A statement changes the catalog in a way that does not depend on the tables in front of it, except
that a change is made to the table that is there.  So two declarations of different names may change
places, and with them any two orders of declarations lead to the same catalog.  The foreign keys
wait until the end, and by then every order knows the same tables; that is why references forward
and backward, and keys that changes add later, come out the same.
-/
import Mathlib.Data.List.Nodup
import Mathlib.Data.List.Perm.Basic
import Diagrams.Proofs.Schema.Effect
import Diagrams.Proofs.Schema.Script

namespace Diagrams.Schema

/-- What the names of a script stand for. -/
abbrev Catalog := Text → Option Er.Entity

namespace Catalog

/-- The catalog after one more table is declared. -/
def declare (catalog : Catalog) (table : Er.Entity) : Catalog := fun name =>
  if name.lower = table.name.lower then some table else catalog name

/-- The catalog after a table is changed. -/
def change (catalog : Catalog) (table changes : Text) : Catalog := fun name =>
  if name.lower = table.lower then
    (catalog name).map fun entity =>
      entity.applyKeys (addedPrimaryKeys changes) (addedForeignKeys entity.name changes)
  else catalog name

/-- The catalog after a statement. -/
def after (catalog : Catalog) (statement : Text) : Catalog :=
  match declared? statement, change? statement with
  | some definition, _ => catalog.declare definition.entity
  | none, some (table, changes) => catalog.change table changes
  | none, none => catalog

/-- The foreign keys that a statement adds. -/
def keysAfter (catalog : Catalog) (statement : Text) : List Er.ForeignKey :=
  match declared? statement, change? statement with
  | some definition, _ => definition.foreignKeys
  | none, some (table, changes) =>
    (catalog table).toList.flatMap fun entity => addedForeignKeys entity.name changes
  | none, none => []

/-- Declarations of different names may change places. -/
theorem declare_comm (catalog : Catalog) {table other : Er.Entity}
    (h : table.name.lower ≠ other.name.lower) :
    (catalog.declare table).declare other = (catalog.declare other).declare table := by
  funext name
  unfold declare
  by_cases htable : name.lower = table.name.lower
  · have hother : name.lower ≠ other.name.lower := fun heq => h (htable.symm.trans heq)
    rw [if_neg hother, if_pos htable, if_pos htable]
  · rw [if_neg htable, if_neg htable]

end Catalog

/-- The names of two statements are different, if both declare a table. -/
def DifferentTables (first second : Text) : Prop :=
  ∀ definition other, declared? first = some definition → declared? second = some other →
    definition.entity.name.lower ≠ other.entity.name.lower

theorem Catalog.after_comm (catalog : Catalog) {first second : Text} (hfirst : change? first = none)
    (hsecond : change? second = none) (h : DifferentTables first second) :
    (catalog.after first).after second = (catalog.after second).after first := by
  unfold Catalog.after
  rw [hfirst, hsecond]
  cases hdefinition : declared? first with
  | none => cases declared? second <;> rfl
  | some definition =>
      cases hother : declared? second with
      | none => rfl
      | some other => exact Catalog.declare_comm catalog (h definition other hdefinition hother)

/-- The foreign keys of a statement that is no change do not depend on what was declared before. -/
theorem Catalog.keysAfter_congr (catalog other : Catalog) {statement : Text}
    (h : change? statement = none) : catalog.keysAfter statement = other.keysAfter statement := by
  unfold Catalog.keysAfter
  rw [h]
  cases declared? statement <;> rfl

namespace Progress

/-! ### The catalog of a reading -/

/-- What names stand for at this point of a reading. -/
abbrev catalog (progress : Progress) : Catalog := Er.Diagram.table? progress.diagram

variable {progress other : Progress}

theorem Settled.table?_insert (h : progress.Settled) (table : Er.Entity) :
    Er.Diagram.table? (progress.diagram.insert table) = progress.catalog.declare table := by
  funext name
  unfold Er.Diagram.table? Catalog.declare
  rw [Graph.lookup?_insert, h.key, h.key]
  by_cases hname : name.lower = table.name.lower
  · rw [if_pos (show name.lower = (Named.name table).lower from hname), if_pos hname]
    exact Graph.node?_create_nextNode progress.diagram table
  · rw [if_neg (show ¬ name.lower = (Named.name table).lower from hname), if_neg hname]
    unfold catalog Er.Diagram.table?
    cases hlookup : progress.diagram.lookup? name with
    | none => rfl
    | some node =>
        obtain ⟨found, hfound, -⟩ := h.node?_of_lookup? hlookup
        have hlt := (List.getElem?_eq_some_iff.mp hfound).1
        exact Graph.node?_create_of_lt hlt table

theorem Settled.lookup?_congr (h : progress.Settled) {name same : Text}
    (hname : name.lower = same.lower) :
    progress.diagram.lookup? name = progress.diagram.lookup? same := by
  unfold Graph.lookup? Registry.get? Registry.binding?
  rw [h.key, h.key, hname]

theorem Settled.table?_modify (h : progress.Settled) {table : Text} {node : Nat}
    (hlookup : progress.diagram.lookup? table = some node) (change : Er.Entity → Er.Entity) :
    Er.Diagram.table? (progress.diagram.modify node change) = fun name =>
      if name.lower = table.lower then (progress.catalog name).map change
      else progress.catalog name := by
  funext name
  have hsame : (progress.diagram.modify node change).lookup? name = progress.diagram.lookup? name :=
    rfl
  unfold catalog Er.Diagram.table?
  rw [hsame]
  by_cases hname : name.lower = table.lower
  · rw [if_pos hname, h.lookup?_congr hname, hlookup, Option.bind_some,
      Graph.node?_modify, if_pos rfl]
    rfl
  · rw [if_neg hname]
    cases hother : progress.diagram.lookup? name with
    | none => rfl
    | some found =>
        -- Another name stands for another table, which has that name.
        obtain ⟨entity, hentity, hfoundName⟩ := h.node?_of_lookup? hother
        obtain ⟨changed, hchanged, htableName⟩ := h.node?_of_lookup? hlookup
        have hne : node ≠ found := by
          rintro rfl
          obtain rfl := Option.some.inj (hentity.symm.trans hchanged)
          exact hname (hfoundName.symm.trans htableName)
        rw [Option.bind_some, Graph.node?_modify, if_neg hne]
        rfl

theorem Settled.catalog_of_lookup? (h : progress.Settled) {table : Text} {node : Nat}
    (hlookup : progress.diagram.lookup? table = some node) :
    ∃ entity, progress.catalog table = some entity ∧
      progress.diagram.nameOf node = entity.name := by
  obtain ⟨entity, hentity, -⟩ := h.node?_of_lookup? hlookup
  refine ⟨entity, ?_, Er.Diagram.nameOf_eq hentity⟩
  unfold catalog Er.Diagram.table?
  rw [hlookup]
  exact hentity

theorem Settled.catalog_eq_none (h : progress.Settled) {table name : Text}
    (hlookup : progress.diagram.lookup? table = none) (hname : name.lower = table.lower) :
    progress.catalog name = none := by
  unfold catalog Er.Diagram.table?
  rw [h.lookup?_congr hname, hlookup]
  rfl

/-- What a statement does to the catalog of a reading, and which foreign keys it adds,
depends on the catalog only. -/
theorem Settled.catalog_readStatement (h : progress.Settled) (statement : Text) :
    (progress.readStatement statement).catalog = progress.catalog.after statement ∧
      (progress.readStatement statement).pending
        = progress.pending ++ progress.catalog.keysAfter statement := by
  unfold Catalog.after Catalog.keysAfter
  cases effect_readStatement progress statement with
  | declare definition declared diagram pending =>
      rw [declared, pending, catalog, diagram]
      exact ⟨h.table?_insert definition.entity, rfl⟩
  | change table changes node change known diagram pending =>
      have hdeclared : declared? statement = none := declared?_of_change_eq_some change
      obtain ⟨entity, hentity, hname⟩ := h.catalog_of_lookup? known
      rw [hdeclared, change, pending, catalog, diagram, h.table?_modify known, hname]
      dsimp only
      constructor
      · funext name
        unfold Catalog.change
        by_cases hsame : name.lower = table.lower
        · have hfound : progress.catalog name = some entity := by
            rw [← hentity]
            unfold catalog Er.Diagram.table?
            rw [h.lookup?_congr hsame]
          rw [if_pos hsame, if_pos hsame, hfound]
          rfl
        · rw [if_neg hsame, if_neg hsame]
      · rw [hentity]
        simp
  | nothing declared unknown diagram pending =>
      rw [declared, pending, catalog, diagram]
      cases hchange : change? statement with
      | none => simp
      | some change =>
          obtain ⟨table, changes⟩ := change
          have hnone := unknown table changes hchange
          dsimp only
          constructor
          · funext name
            unfold Catalog.change
            by_cases hsame : name.lower = table.lower
            · have hstill := h.catalog_eq_none hnone hsame
              rw [if_pos hsame, hstill]
              exact hstill
            · rw [if_neg hsame]
          · rw [h.catalog_eq_none hnone rfl]
            simp

/-! ### Two orders side by side -/

/-- Two readings have come to the same catalog and to the same foreign keys, in whatever order. -/
structure Alike (progress other : Progress) : Prop where
  left : progress.Settled
  right : other.Settled
  catalog : other.catalog = progress.catalog
  pending : other.pending.Perm progress.pending

namespace Alike

theorem refl (h : progress.Settled) : Alike progress progress := ⟨h, h, rfl, .refl _⟩

theorem trans {third : Progress} (h : Alike progress other) (h' : Alike other third) :
    Alike progress third :=
  ⟨h.left, h'.right, h'.catalog.trans h.catalog, h'.pending.trans h.pending⟩

theorem readStatement (h : Alike progress other) (statement : Text) :
    Alike (progress.readStatement statement) (other.readStatement statement) := by
  obtain ⟨hcatalog, hpending⟩ := h.left.catalog_readStatement statement
  obtain ⟨hcatalog', hpending'⟩ := h.right.catalog_readStatement statement
  refine ⟨h.left.readStatement statement, h.right.readStatement statement, ?_, ?_⟩
  · rw [hcatalog, hcatalog', h.catalog]
  · rw [hpending, hpending', h.catalog]
    exact h.pending.append_right _

theorem foldl_readStatement (h : Alike progress other) (statements : List Text) :
    Alike (statements.foldl Progress.readStatement progress)
      (statements.foldl Progress.readStatement other) := by
  induction statements generalizing progress other with
  | nil => exact h
  | cons statement statements ih => exact ih (h.readStatement statement)

/-- Two statements that declare different tables, or none, may change places. -/
theorem swap (h : progress.Settled) {first second : Text} (hfirst : change? first = none)
    (hsecond : change? second = none) (hdifferent : DifferentTables first second) :
    Alike ((progress.readStatement first).readStatement second)
      ((progress.readStatement second).readStatement first) := by
  have hleft := h.readStatement first
  have hright := h.readStatement second
  obtain ⟨hcatalog, hpending⟩ := h.catalog_readStatement first
  obtain ⟨hcatalog', hpending'⟩ := h.catalog_readStatement second
  obtain ⟨hboth, hkeys⟩ := hleft.catalog_readStatement second
  obtain ⟨hboth', hkeys'⟩ := hright.catalog_readStatement first
  refine ⟨hleft.readStatement second, hright.readStatement first, ?_, ?_⟩
  · rw [hboth, hboth', hcatalog, hcatalog', Catalog.after_comm _ hfirst hsecond hdifferent]
  · rw [hkeys, hkeys', hpending, hpending',
      Catalog.keysAfter_congr _ progress.catalog hfirst,
      Catalog.keysAfter_congr (progress.readStatement first).catalog progress.catalog hsecond,
      List.append_assoc, List.append_assoc]
    exact List.Perm.append_left _ List.perm_append_comm

end Alike

/-- The names that statements declare, in lower case. -/
def loweredNames (statements : List Text) : List Text :=
  (statements.filterMap declared?).map fun definition => definition.entity.name.lower

theorem differentTables_of_nodup {first second : Text} {statements : List Text}
    (h : (loweredNames (first :: second :: statements)).Nodup) : DifferentTables first second := by
  intro definition other hdefinition hother heq
  unfold loweredNames at h
  rw [List.filterMap_cons_some hdefinition, List.filterMap_cons_some hother, List.map_cons,
    List.map_cons, List.nodup_cons] at h
  exact h.1 (heq ▸ List.mem_cons_self)

theorem nodup_loweredNames_of_cons {statement : Text} {statements : List Text}
    (h : (loweredNames (statement :: statements)).Nodup) : (loweredNames statements).Nodup := by
  unfold loweredNames at h ⊢
  cases hdeclared : declared? statement with
  | none => rwa [List.filterMap_cons_none hdeclared] at h
  | some definition =>
      rw [List.filterMap_cons_some hdeclared, List.map_cons] at h
      exact (List.nodup_cons.mp h).2

/-- Statements that declare tables of different names may be put in any order. -/
theorem Alike.foldl_perm {statements statements' : List Text} (hperm : statements'.Perm statements)
    (hnochange : ∀ statement ∈ statements, change? statement = none)
    (hnodup : (loweredNames statements).Nodup) (h : Alike progress other) :
    Alike (statements.foldl Progress.readStatement progress)
      (statements'.foldl Progress.readStatement other) := by
  have hsymm := hperm.symm
  clear hperm
  induction hsymm generalizing progress other with
  | nil => exact h
  | cons statement _ ih =>
      exact ih (List.forall_mem_cons.mp hnochange).2 (nodup_loweredNames_of_cons hnodup)
        (h.readStatement statement)
  | swap first second statements =>
      obtain ⟨hsecond, hrest⟩ := List.forall_mem_cons.mp hnochange
      obtain ⟨hfirst, -⟩ := List.forall_mem_cons.mp hrest
      have hboth := (h.readStatement second).readStatement first
      have hswap := Alike.swap h.right hsecond hfirst (differentTables_of_nodup hnodup)
      exact (hboth.trans hswap).foldl_readStatement statements
  | trans hfirst _ ih ih' =>
      refine (ih hnochange hnodup (Alike.refl h.left)).trans (ih' ?_ ?_ h)
      · intro statement hstatement
        exact hnochange statement (hfirst.mem_iff.mpr hstatement)
      · exact ((hfirst.filterMap declared?).map _).nodup_iff.mp hnodup

/-! ### Tables and links at the end -/

/-- Where no two tables share a name, the tables are those that their names stand for. -/
theorem Settled.mem_pool_iff (h : progress.Settled)
    (hdistinct : (progress.names.map Text.lower).Nodup) (table : Er.Entity) :
    table ∈ progress.diagram.pool ↔ progress.catalog table.name = some table := by
  constructor
  · intro htable
    obtain ⟨node, hlookup⟩ := h.exists_lookup? htable rfl
    obtain ⟨found, hfound, hname⟩ := h.node?_of_lookup? hlookup
    unfold names at hdistinct
    rw [List.map_map] at hdistinct
    obtain rfl := List.inj_on_of_nodup_map hdistinct (List.mem_of_getElem? hfound) htable hname
    unfold catalog Er.Diagram.table?
    rw [hlookup]
    exact hfound
  · intro hcatalog
    obtain ⟨node, -, hnode⟩ := Option.bind_eq_some_iff.mp hcatalog
    exact List.mem_of_getElem? hnode

theorem nodup_pool (hdistinct : (progress.names.map Text.lower).Nodup) :
    progress.diagram.pool.Nodup :=
  hdistinct.of_map.of_map

/-- Readings that are alike show the same tables, in whatever order. -/
theorem Alike.perm_pool (h : Alike progress other)
    (hdistinct : (progress.names.map Text.lower).Nodup)
    (hdistinct' : (other.names.map Text.lower).Nodup) :
    other.diagram.pool.Perm progress.diagram.pool := by
  rw [List.perm_ext_iff_of_nodup (nodup_pool hdistinct') (nodup_pool hdistinct)]
  intro table
  rw [h.left.mem_pool_iff hdistinct, h.right.mem_pool_iff hdistinct', h.catalog]

/-- Readings that are alike lead to the same relationships, in whatever order. -/
theorem Alike.perm_relationships (h : Alike progress other) :
    ((Er.Diagram.relationshipsOf other.diagram other.pending).map
        (Er.Diagram.link other.diagram)).Perm
      ((Er.Diagram.relationshipsOf progress.diagram progress.pending).map
        (Er.Diagram.link progress.diagram)) := by
  have hlinks : ∀ key, (Er.Diagram.relationshipOf? other.diagram key).map
        (Er.Diagram.link other.diagram)
      = (Er.Diagram.relationshipOf? progress.diagram key).map
        (Er.Diagram.link progress.diagram) := by
    intro key
    have hsource : other.diagram.table? key.sourceTable = progress.diagram.table? key.sourceTable :=
      congrFun h.catalog key.sourceTable
    have htarget : other.diagram.table? key.targetTable = progress.diagram.table? key.targetTable :=
      congrFun h.catalog key.targetTable
    rw [Er.Diagram.map_link_relationshipOf? h.left.namesMade,
      Er.Diagram.map_link_relationshipOf? h.right.namesMade, hsource, htarget]
  unfold Er.Diagram.relationshipsOf
  rw [List.map_filterMap, List.map_filterMap, funext hlinks]
  exact h.pending.filterMap _

end Progress

/-! ### Whole scripts -/

/-- A script of some statements. -/
def scriptOf (statements : List Text) : Text :=
  statements.flatMap fun statement => statement ++ [';']

/-- A statement as a script has it: without the blanks around it, and ended. -/
def ended (statement : Text) : Text := statement.trim ++ [';']

/-- The statements of a script as it has them. -/
def endedStatements (items : List Text) : List Text :=
  (items.filter fun item => !item.isBlankText).map ended

theorem endedStatements_cons (item : Text) (items : List Text) : endedStatements (item :: items)
    = (if item.isBlankText then [] else [ended item]) ++ endedStatements items := by
  unfold endedStatements
  cases hblank : item.isBlankText <;> simp [hblank]

/-- A script falls into the statements that it was made of, but for blank ones. -/
theorem statements_scriptOf {items : List Text} (h : ∀ item ∈ items, ';' ∉ item) :
    statements (scriptOf items) = endedStatements items := by
  induction items with
  | nil => rfl
  | cons item items ih =>
      obtain ⟨hitem, hitems⟩ := List.forall_mem_cons.mp h
      have hscript : scriptOf (item :: items) = item ++ ';' :: scriptOf items := by
        simp [scriptOf]
      rw [hscript, statements_append, statements_of_unended fun c hc heq => hitem (heq ▸ hc),
        ih hitems, endedStatements_cons]
      rfl

theorem endedStatements_append (items others : List Text) :
    endedStatements (items ++ others) = endedStatements items ++ endedStatements others := by
  unfold endedStatements
  rw [List.filter_append, List.map_append]

theorem perm_endedStatements {items others : List Text} (h : items.Perm others) :
    (endedStatements items).Perm (endedStatements others) := (h.filter _).map ended

/-- What holds of all statements as a script has them holds of those that are not blank. -/
theorem forall_mem_endedStatements {p : Text → Prop} {items : List Text}
    (h : ∀ item ∈ items, p (ended item)) : ∀ statement ∈ endedStatements items, p statement := by
  intro statement hstatement
  obtain ⟨item, hitem, rfl⟩ := List.mem_map.mp hstatement
  exact h item (List.mem_filter.mp hitem).1

theorem nodup_loweredNames_endedStatements {items : List Text}
    (h : (Progress.loweredNames (items.map ended)).Nodup) :
    (Progress.loweredNames (endedStatements items)).Nodup := by
  have hsublist := (List.filter_sublist (p := fun item => !Text.isBlankText item) (l := items)).map
    ended
  exact h.sublist ((hsublist.filterMap declared?).map _)

/-- Changes add no names. -/
theorem names_foldl_of_declares_none (progress : Progress) {changes : List Text}
    (h : ∀ statement ∈ changes, declared? statement = none) :
    (changes.foldl Progress.readStatement progress).names = progress.names := by
  have hnone : changes.filterMap declared? = [] := List.filterMap_eq_nil_iff.mpr h
  rw [Progress.names_foldl_readStatement, hnone, List.map_nil, List.append_nil]

/-- The names after declarations of different names, and changes to them, are different. -/
theorem nodup_names_readStatements {script : Text} (title : Text) {declarations changes : List Text}
    (hstatements : statements script = declarations ++ changes)
    (hdistinct : (Progress.loweredNames declarations).Nodup)
    (hchanges : ∀ statement ∈ changes, declared? statement = none) :
    ((readStatements script title).names.map Text.lower).Nodup := by
  unfold readStatements
  rw [hstatements, List.foldl_append, names_foldl_of_declares_none _ hchanges,
    Progress.names_foldl_readStatement, List.map_append, List.map_map]
  exact hdistinct

/-- **Tables may be declared in any order.**  Where the declared names are told apart, a
script shows the same tables and the same relationships, with the changes at its end, however
its declarations are ordered. -/
theorem read_reordered {declarations reordered changes : List Text}
    (hended : ∀ statement ∈ declarations ++ changes, ';' ∉ statement)
    (hdeclarations : ∀ statement ∈ declarations, change? (ended statement) = none)
    (hchanges : ∀ statement ∈ changes, change? (ended statement) ≠ none)
    (hdistinct : (Progress.loweredNames (declarations.map ended)).Nodup)
    (hperm : reordered.Perm declarations) (title : Text) (grid : Option Er.Grid) :
    (read (scriptOf (reordered ++ changes)) title grid).diagram.tables.Perm
        (read (scriptOf (declarations ++ changes)) title grid).diagram.tables ∧
      (read (scriptOf (reordered ++ changes)) title grid).diagram.links.Perm
        (read (scriptOf (declarations ++ changes)) title grid).diagram.links := by
  have hstatements : statements (scriptOf (declarations ++ changes))
      = endedStatements declarations ++ endedStatements changes := by
    rw [statements_scriptOf hended, endedStatements_append]
  have hstatements' : statements (scriptOf (reordered ++ changes))
      = endedStatements reordered ++ endedStatements changes := by
    have hended' : ∀ statement ∈ reordered ++ changes, ';' ∉ statement := by
      intro statement hstatement
      exact hended statement ((hperm.append_right changes).mem_iff.mp hstatement)
    rw [statements_scriptOf hended', endedStatements_append]
  have hdeclared := perm_endedStatements hperm
  have hnodup := nodup_loweredNames_endedStatements hdistinct
  have hnodup' := ((hdeclared.filterMap declared?).map _).nodup_iff.mpr hnodup
  have hnone : ∀ statement ∈ endedStatements changes, declared? statement = none := by
    apply forall_mem_endedStatements
    intro item hitem
    exact declared?_of_change (hchanges item hitem)
  -- The two orders are alike after the declarations, and stay so while the changes are read.
  have halike : Progress.Alike (readStatements (scriptOf (declarations ++ changes)) title)
      (readStatements (scriptOf (reordered ++ changes)) title) := by
    unfold readStatements
    rw [hstatements, hstatements', List.foldl_append, List.foldl_append]
    apply Progress.Alike.foldl_readStatement
    apply Progress.Alike.foldl_perm hdeclared (forall_mem_endedStatements hdeclarations) hnodup
    exact .refl (Progress.settled_start title)
  have hnames := nodup_names_readStatements title hstatements hnodup hnone
  have hnames' := nodup_names_readStatements title hstatements' hnodup' hnone
  constructor
  · rw [tables_read, tables_read]
    exact (halike.perm_pool hnames hnames').map _
  · rw [links_read, links_read]
    exact halike.perm_relationships

/-- Orders that refer to customers further down, and the customers. -/
def ordersFirst : List Text :=
  ["CREATE TABLE orders (id INT PRIMARY KEY, buyer INT REFERENCES customer(id))".toList,
    "CREATE TABLE Customer (id INT)".toList]

/-- The key of the customers, added at the end. -/
def customerKey : Text := "ALTER TABLE customer ADD PRIMARY KEY (id)".toList

theorem read_reordered_customersFirst :
    (read (scriptOf (ordersFirst.reverse ++ [customerKey])) "Shop".toList none).diagram.links.Perm
      [("orders".toList, "Customer".toList,
        { name := "orders_Customer".toList, cardinality := .manyToOne
          sourceColumn := some 1, targetColumn := some 0 })] := by
  have hlinks : (read (scriptOf (ordersFirst ++ [customerKey])) "Shop".toList none).diagram.links
      = [("orders".toList, "Customer".toList,
          { name := "orders_Customer".toList, cardinality := .manyToOne
            sourceColumn := some 1, targetColumn := some 0 })] := by
    decide +kernel
  have hended : ∀ statement ∈ ordersFirst ++ [customerKey], ';' ∉ statement := by decide
  have hdeclarations : ∀ statement ∈ ordersFirst, change? (ended statement) = none := by
    decide +kernel
  have hchanges : ∀ statement ∈ [customerKey], change? (ended statement) ≠ none := by
    decide +kernel
  have hdistinct : (Progress.loweredNames (ordersFirst.map ended)).Nodup := by decide +kernel
  have hboth := read_reordered hended hdeclarations hchanges hdistinct ordersFirst.reverse_perm
    "Shop".toList none
  exact hlinks ▸ hboth.2

end Diagrams.Schema
