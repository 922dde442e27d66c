/-
Reading back what was written.

A written script falls into its statements, and every statement is read strictly, so the tables
come back one by one and nothing is skipped.  By then all names are known: a name stands for
the table that has it, since no two tables share one.  So the foreign keys, which wait until
the end, are resolved to the places of the written tables, and `read_script` says that the
diagram is the one that was written.
-/
import Diagrams.Proofs.Schema.Coherent
import Diagrams.Proofs.Schema.WrittenTable

namespace Diagrams.Schema.Written

/-! ### Statement by statement -/

theorem readStatement_body {table : Table} (h : table.WellFormed) (progress : Progress) :
    progress.readStatement (table.body ++ [';'])
      = progress.addTable { entity := table.entity, foreignKeys := table.references } := by
  unfold Progress.readStatement
  simp only [stripComments_body h, matchStart?_alterTable, Progress.defineTable, readTable_body h]

theorem foldl_readStatement {tables : List Table} (h : ∀ table ∈ tables, table.WellFormed)
    (progress : Progress) :
    let after := (tables.map fun table => table.body ++ [';']).foldl Progress.readStatement progress
    after.diagram = (tables.map Table.entity).foldl Graph.insert progress.diagram ∧
      after.pending = progress.pending ++ tables.flatMap Table.references ∧
      after.skipped = progress.skipped := by
  induction tables generalizing progress with
  | nil => simp
  | cons table tables ih =>
      obtain ⟨htable, htables⟩ := List.forall_mem_cons.mp h
      rw [List.map_cons, List.foldl_cons, readStatement_body htable]
      obtain ⟨hdiagram, hpending, hskipped⟩ := ih htables
        (progress.addTable { entity := table.entity, foreignKeys := table.references })
      refine ⟨hdiagram, ?_, ?_⟩
      · rw [hpending, Progress.pending_addTable, List.append_assoc, List.flatMap_cons]
      · rw [hskipped, Progress.skipped_addTable]

/-! ### The diagram of the tables -/

/-- The diagram that shows some tables, without relationships. -/
def shown (tables : List Table) (title : Text) : Er.Diagram :=
  (tables.map Table.entity).foldl Graph.insert (.empty title)

section

variable {tables : List Table} {title : Text}

theorem pool_shown : (shown tables title).pool = tables.map Table.entity := by
  unfold shown
  rw [Graph.pool_foldl_insert]
  rfl

theorem members_shown : (shown tables title).members = List.range tables.length := by
  unfold shown
  rw [Graph.members_foldl_insert, List.length_map, List.range_eq_range']
  rfl

theorem node?_shown (place : Nat) :
    (shown tables title).node? place = tables[place]?.map Table.entity := by
  rw [Graph.node?, pool_shown, List.getElem?_map]

theorem lookup?_shown (h : WellFormed tables) (name : Text) :
    (shown tables title).lookup? name = tableIndex? tables name := by
  have hkeys : ((tables.map Table.entity).map fun item : Er.Entity =>
      (Er.Diagram.empty title).registry.key (Named.name item)).Nodup := by
    rw [List.map_map]
    exact h.distinct
  unfold shown
  rw [Graph.lookup?_foldl_insert _ hkeys, List.findIdx?_map]
  have hshift : (fun place => (Er.Diagram.empty title).nextNode + place) = id :=
    funext fun place => Nat.zero_add place
  rw [hshift, Option.map_id]
  exact Option.or_none

/-- The place of a table is what its name stands for. -/
theorem tableIndex?_name (h : WellFormed tables) {table : Table} {place : Nat}
    (hplace : tables[place]? = some table) : tableIndex? tables table.name.name = some place := by
  have hlt : place < tables.length := (List.getElem?_eq_some_iff.mp hplace).1
  unfold tableIndex?
  rw [List.findIdx?_eq_some_iff_getElem]
  refine ⟨hlt, ?_, ?_⟩
  · have hget : tables[place] = table := (List.getElem?_eq_some_iff.mp hplace).2
    simp [hget]
  · intro earlier hearlier
    have hget : tables[place] = table := (List.getElem?_eq_some_iff.mp hplace).2
    have hne := (List.pairwise_iff_getElem.mp h.distinct) earlier place
      (by simp only [List.length_map]; omega) (by simpa using hlt) hearlier
    simpa [hget] using hne

end

/-! ### Columns of a table -/

section

variable {table : Table}

theorem columnIndex?_entity (name : Text) :
    table.entity.columnIndex? name = table.columnIndex? name := by
  unfold Er.Entity.columnIndex? Table.columnIndex?
  exact List.findIdx?_map

theorem primaryKeys_entity :
    table.entity.primaryKeys = (table.columns.filter table.isKey).map table.column :=
  List.filter_map

theorem column?_entity (name : Text) :
    table.entity.column? name
      = (table.columns.find? fun column => column.name.name.lower = name.lower).map table.column :=
  List.find?_map

/-- A name stands for the only key column of a written table just where it is its name. -/
theorem isUniqueKey_entity (h : table.WellFormed) (name : Text) :
    table.entity.isUniqueKey name = table.isSoleKey name := by
  unfold Er.Entity.isUniqueKey Table.isSoleKey
  rw [primaryKeys_entity, column?_entity, List.length_map]
  rcases hkeys : table.columns.filter table.isKey with _ | ⟨column, _ | ⟨other, others⟩⟩
  · simp
  · obtain ⟨hmem, hkey⟩ : column ∈ table.columns ∧ table.isKey column = true :=
      List.mem_filter.mp (by rw [hkeys]; exact List.mem_singleton_self column)
    have hsole : ∀ found ∈ table.columns, table.isKey found = true → found = column := by
      intro found hfound hfoundKey
      have hfilter := List.mem_filter.mpr ⟨hfound, hfoundKey⟩
      rwa [hkeys, List.mem_singleton] at hfilter
    cases hfind : table.columns.find? fun column => column.name.name.lower = name.lower with
    | none =>
        have hname : ¬ column.name.name.lower = name.lower := by
          simpa using List.find?_eq_none.mp hfind column hmem
        simp [hname]
    | some found =>
        have hfound := List.mem_of_find?_eq_some hfind
        have hname : found.name.name.lower = name.lower := by simpa using List.find?_some hfind
        by_cases hsame : column.name.name.lower = name.lower
        · obtain rfl := List.inj_on_of_nodup_map h.distinct hmem hfound (hsame.trans hname.symm)
          simp [Table.column, hkey, hsame]
        · have hnot : table.isKey found = false := by
            by_contra hfoundKey
            rw [Bool.not_eq_false] at hfoundKey
            rw [hsole found hfound hfoundKey] at hname
            exact hsame hname
          simp [Table.column, hnot, hsame]
  · simp

end

/-! ### Relationships -/

section

variable {tables : List Table} {title : Text}

theorem columnIndex?_shown (place : Nat) (name : Text) :
    (shown tables title).columnIndex? place name
      = tables[place]?.bind fun table => table.columnIndex? name := by
  unfold Er.Diagram.columnIndex?
  rw [node?_shown, Option.bind_map]
  simp only [Function.comp_def, columnIndex?_entity]

/-- A foreign key of a written table is resolved to the relationship that it stands for. -/
theorem relationshipOf?_shown (h : WellFormed tables) {table : Table} {place : Nat}
    (hplace : tables[place]? = some table) {key : Er.ForeignKey} (hkey : key ∈ table.references) :
    (shown tables title).relationshipOf? key = relationship? tables table place key := by
  have hsource : key.sourceTable = table.name.name := by
    obtain ⟨written, -, hmem⟩ := List.mem_flatMap.mp hkey
    cases written with
    | primary columns => exact absurd hmem List.not_mem_nil
    | foreign columns target targetColumns =>
        obtain ⟨entry, -, rfl⟩ := List.mem_map.mp hmem
        rfl
  unfold Er.Diagram.relationshipOf? relationship?
  rw [lookup?_shown h, lookup?_shown h, hsource, tableIndex?_name h hplace]
  cases htarget : tableIndex? tables key.targetTable with
  | none => rfl
  | some index =>
      obtain ⟨hlt, -⟩ := List.findIdx?_eq_some_iff_getElem.mp htarget
      have htable : tables[index]? = some tables[index] := List.getElem?_eq_getElem hlt
      have hname : ∀ {place : Nat} {table : Table}, tables[place]? = some table →
          (shown tables title).nameOf place = table.name.name := by
        intro place table hplace
        rw [Graph.nameOf, node?_shown, hplace]
        rfl
      have hkeyAt : ∀ place : Option Nat,
          ((shown tables title).column? index place).any (·.isPrimaryKey)
            = tables[index].isKeyAt place := by
        intro place
        unfold Er.Diagram.column? Table.isKeyAt
        rw [node?_shown, htable]
        cases place with
        | none => rfl
        | some place =>
            show (Option.any _ (tables[index].entity.columns[place]?)) = _
            rw [Table.entity, List.getElem?_map, Option.any_map]
            rfl
      have hsole : ((shown tables title).node? place).any (·.isUniqueKey key.column)
          = table.isSoleKey key.column := by
        rw [node?_shown, hplace]
        exact isUniqueKey_entity (h.each table (List.mem_of_getElem? hplace)) key.column
      simp only [Option.bind_eq_bind, Option.bind_some, htable, hkeyAt, hsole,
        columnIndex?_shown, hplace, Er.Diagram.relationship, List.isEmpty_nil, if_true,
        hname hplace, hname htable]

/-- The relationships of a written script, table by table. -/
theorem relationshipsOf_shown (h : WellFormed tables) :
    (shown tables title).relationshipsOf (tables.flatMap Table.references)
      = relationships tables := by
  have htables : tables.flatMap Table.references
      = tables.zipIdx.flatMap fun item => item.1.references := by
    conv_lhs => rw [← List.zipIdx_map_fst 0 tables]
    rw [List.flatMap_map]
  unfold Er.Diagram.relationshipsOf relationships
  rw [htables, List.filterMap_flatMap]
  refine List.flatMap_congr fun item hmem => ?_
  obtain ⟨table, place⟩ := item
  refine List.filterMap_congr fun key hkey => ?_
  exact relationshipOf?_shown h (List.mem_zipIdx_iff_getElem?.mp hmem) hkey

end

/-- **A written script is read back as it was written**: the diagram shows its tables in
order, each with its columns and keys, and the relationships that its foreign keys stand for,
and no statement is skipped. -/
theorem read_script {tables : List Table} (h : WellFormed tables) (title : Text) :
    let reading := read (script tables) title none
    reading.diagram.title = title ∧ reading.diagram.members = List.range tables.length ∧
      reading.diagram.nodes = tables.map Table.entity ∧
      reading.diagram.shownEdges = relationships tables ∧ reading.skipped = 0 := by
  obtain ⟨hdiagram, hpending, hskipped⟩ := foldl_readStatement h.each { diagram := .empty title }
  have hprogress : readStatements (script tables) title
      = (tables.map fun table => table.body ++ [';']).foldl Progress.readStatement
          { diagram := .empty title } := by
    unfold readStatements
    rw [statements_script h.each]
  rw [← hprogress] at hdiagram hpending hskipped
  have hread : (read (script tables) title none).diagram
      = (shown tables title).resolveForeignKeys (tables.flatMap Table.references) := by
    show (readStatements _ _).diagram.resolveForeignKeys (readStatements _ _).pending = _
    rw [hdiagram, hpending]
    rfl
  obtain ⟨htitle, hedges, hedgePool⟩ :=
    Graph.frame_foldl_insert (Er.Diagram.empty title) (tables.map Table.entity)
  have hconnected : (read (script tables) title none).diagram
      = { shown tables title with
          edgePool := relationships tables
          edges := List.range (relationships tables).length } := by
    have hpool : (shown tables title).edgePool = [] := hedgePool
    have hnone : (shown tables title).edges = [] := hedges
    have hfirst : (shown tables title).nextEdge = 0 := by rw [Graph.nextEdge, hpool]; rfl
    rw [hread, Er.Diagram.resolveForeignKeys, relationshipsOf_shown h, Graph.foldl_connect, hpool,
      hnone, hfirst, List.range_eq_range']
    rfl
  dsimp only
  rw [hconnected]
  refine ⟨htitle, members_shown, ?_, ?_, hskipped⟩
  · show (shown tables title).members.filterMap ((shown tables title).pool[·]?) = _
    rw [members_shown, pool_shown, ← List.length_map Table.entity]
    exact Graph.filterMap_getElem?_range _
  · exact Graph.filterMap_getElem?_range _

/-- Customers and their orders, with names that look like the words of a script. -/
def shop : List Table :=
  [{ name := { name := "customer".toList }
     columns := [
      { name := { name := "key".toList, quotes := .backticks }, type := { word := "INT".toList }
        marks := [.notNull, .primaryKey] },
      { name := { name := "primary_mail".toList }
        type := { word := "VARCHAR".toList, lengths := ["80".toList] } }] },
   { name := { name := "orders".toList, quotes := .brackets }
     columns := [
      { name := { name := "index".toList }
        type := { word := "DECIMAL".toList, lengths := ["10".toList, "2".toList] } },
      { name := { name := "checked".toList, quotes := .doubleQuotes }
        type := { word := "INT".toList } }]
     keys := [
      .primary [{ name := "INDEX".toList }],
      .foreign [{ name := "Checked".toList }] { name := "Customer".toList }
        [{ name := "key".toList }]] }]

theorem wellFormed_shop : WellFormed shop := by decide

theorem read_script_shop : WellFormed shop ∧
    (read (script shop) "Shop".toList none).diagram.nodes = shop.map Table.entity ∧
    (read (script shop) "Shop".toList none).diagram.shownEdges = [
      { source := 1, target := 0
        label :=
          { name := "orders_customer".toList, cardinality := .manyToOne
            sourceColumn := some 1, targetColumn := some 0 } }] := by
  have hrelationships : relationships shop = [
      { source := 1, target := 0
        label :=
          { name := "orders_customer".toList, cardinality := .manyToOne
            sourceColumn := some 1, targetColumn := some 0 } }] := by decide
  obtain ⟨-, -, hnodes, hedges, -⟩ := read_script wellFormed_shop "Shop".toList
  exact ⟨wellFormed_shop, hnodes, hedges.trans hrelationships⟩

end Diagrams.Schema.Written
