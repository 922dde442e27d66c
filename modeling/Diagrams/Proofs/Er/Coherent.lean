/-
Diagrams whose relationships agree with their tables.

Relationships are made by name, after all tables are known, and are classified by key flags that
come from several places.  `Coherent` says that none of this leaves a trace: each relationship joins
shown tables that their own names stand for, points at the columns that names stand for there, and
is classified as the flags of the finished tables say.

Nothing between making the relationships and handing the diagram out changes a name or a flag.  That
is why it suffices to look at one foreign key at a time (`edgeCoherent_of_relationshipOf?`).
-/
import Diagrams.Er.Layout
import Diagrams.Proofs.Er.Keys
import Diagrams.Proofs.Graph

namespace Diagrams.Er

/-- Whether one row at most stands on the source side. -/
def Cardinality.isOneAtSource : Cardinality → Bool
  | oneToOne | oneToMany => true
  | manyToOne | manyToMany => false

/-- Whether one row at most stands on the target side. -/
def Cardinality.isOneAtTarget : Cardinality → Bool
  | oneToOne | manyToOne => true
  | oneToMany | manyToMany => false

@[simp] theorem Cardinality.isOneAtSource_classify (source target : Bool) :
    (classify source target).isOneAtSource = source := by
  cases source <;> cases target <;> rfl

@[simp] theorem Cardinality.isOneAtTarget_classify (source target : Bool) :
    (classify source target).isOneAtTarget = target := by
  cases source <;> cases target <;> rfl

/-- The column stands at the place, and no column in front of it has the same name, case aside. -/
def IsFirstNamed (columns : List Column) (place : Nat) (column : Column) : Prop :=
  columns[place]? = some column ∧
    ∀ earlier other, earlier < place → columns[earlier]? = some other →
      other.name.lower ≠ column.name.lower

/-- The column at the place is a primary-key column, and the only one. -/
def IsSoleKey (columns : List Column) (place : Nat) : Prop :=
  (∃ column, columns[place]? = some column ∧ column.isPrimaryKey = true) ∧
    ∀ other column, columns[other]? = some column → column.isPrimaryKey = true → other = place

namespace Entity

/-- The place that a name stands for, spelled out. -/
theorem columnIndex?_eq_some_iff (entity : Entity) (name : Text) (place : Nat) :
    entity.columnIndex? name = some place ↔
      (∃ column, entity.columns[place]? = some column ∧ column.name.lower = name.lower) ∧
        ∀ earlier other, earlier < place → entity.columns[earlier]? = some other →
          other.name.lower ≠ name.lower := by
  unfold columnIndex?
  rw [List.findIdx?_eq_some_iff_getElem]
  constructor
  · rintro ⟨hlt, hfound, hbefore⟩
    refine ⟨⟨_, List.getElem?_eq_getElem hlt, by simpa using hfound⟩, ?_⟩
    intro earlier other hearlier hother
    have hne := hbefore earlier hearlier
    rw [List.getElem?_eq_getElem (Nat.lt_trans hearlier hlt)] at hother
    rw [Option.some.inj hother] at hne
    simpa using hne
  · rintro ⟨⟨column, hcolumn, hname⟩, hbefore⟩
    obtain ⟨hlt, hget⟩ := List.getElem?_eq_some_iff.mp hcolumn
    refine ⟨hlt, by simpa [hget] using hname, ?_⟩
    intro earlier hearlier
    have := hbefore earlier _ hearlier
      (List.getElem?_eq_getElem (Nat.lt_trans hearlier hlt))
    simpa using this

theorem isFirstNamed_of_columnIndex? {entity : Entity} {name : Text} {place : Nat}
    (h : entity.columnIndex? name = some place) :
    ∃ column, IsFirstNamed entity.columns place column := by
  obtain ⟨⟨column, hcolumn, hname⟩, hbefore⟩ := (columnIndex?_eq_some_iff ..).mp h
  refine ⟨column, hcolumn, ?_⟩
  rw [hname]
  exact hbefore

theorem find?_eq_findIdx?_bind (columns : List Column) (p : Column → Bool) :
    columns.find? p = (columns.findIdx? p).bind (columns[·]?) := by
  induction columns with
  | nil => rfl
  | cons column columns ih =>
      rw [List.find?_cons, List.findIdx?_cons]
      cases p column with
      | true => rfl
      | false =>
          rw [ih]
          cases columns.findIdx? p <;> rfl

/-- Counting one column that passes a test is being sure that no other one does. -/
theorem countP_eq_one_iff {p : Column → Bool} (columns : List Column) (place : Nat)
    {column : Column} (hcolumn : columns[place]? = some column) (hp : p column = true) :
    columns.countP p = 1 ↔
      ∀ other found, columns[other]? = some found → p found = true → other = place := by
  induction columns generalizing place with
  | nil => simp at hcolumn
  | cons first columns ih =>
      rw [List.countP_cons]
      cases place with
      | zero =>
          obtain rfl : first = column := by simpa using hcolumn
          rw [if_pos hp, Nat.add_eq_right, List.countP_eq_zero]
          constructor
          · intro hnone other found hfound hpfound
            cases other with
            | zero => rfl
            | succ other => exact absurd hpfound (hnone found (List.mem_of_getElem? hfound))
          · intro hsole found hfound hpfound
            obtain ⟨other, hother⟩ := List.mem_iff_getElem?.mp hfound
            exact absurd (hsole (other + 1) found hother hpfound) (Nat.succ_ne_zero other)
      | succ place =>
          have hcolumn' : columns[place]? = some column := by simpa using hcolumn
          cases hfirst : p first with
          | true =>
              have hpos : 0 < columns.countP p :=
                List.countP_pos_iff.mpr ⟨column, List.mem_of_getElem? hcolumn', hp⟩
              constructor
              · intro hone
                rw [if_pos rfl] at hone
                omega
              · intro hsole
                exact absurd (hsole 0 first rfl hfirst) (Nat.succ_ne_zero place).symm
          | false =>
              simp only [Bool.false_eq_true, if_false, Nat.add_zero]
              rw [ih place hcolumn']
              constructor
              · intro hsole other found hfound hpfound
                cases other with
                | zero =>
                    obtain rfl : first = found := by simpa using hfound
                    rw [hfirst] at hpfound
                    exact Bool.noConfusion hpfound
                | succ other => rw [hsole other found (by simpa using hfound) hpfound]
              · intro hsole other found hfound hpfound
                exact Nat.succ.inj (hsole (other + 1) found (by simpa using hfound) hpfound)

/-- A name is a unique key where the column that it stands for is the only one of the primary
key. -/
theorem isUniqueKey_iff (entity : Entity) (name : Text) :
    entity.isUniqueKey name = true ↔
      ∃ place, entity.columnIndex? name = some place ∧ IsSoleKey entity.columns place := by
  have hcolumn? : entity.column? name = (entity.columnIndex? name).bind (entity.columns[·]?) :=
    find?_eq_findIdx?_bind entity.columns _
  unfold isUniqueKey primaryKeys
  rw [hcolumn?, ← List.countP_eq_length_filter, Bool.and_eq_true, beq_iff_eq]
  cases hplace : entity.columnIndex? name with
  | none => simp
  | some place =>
      obtain ⟨⟨column, hcolumn, -⟩, -⟩ := (columnIndex?_eq_some_iff ..).mp hplace
      simp only [Option.bind_some, hcolumn, Option.any_some, Option.some.injEq, exists_eq_left']
      constructor
      · rintro ⟨hkey, hone⟩
        exact ⟨⟨column, hcolumn, hkey⟩, (countP_eq_one_iff _ place hcolumn hkey).mp hone⟩
      · rintro ⟨⟨other, hother, hkey⟩, hsole⟩
        obtain rfl : column = other := Option.some.inj (hcolumn.symm.trans hother)
        exact ⟨hkey, (countP_eq_one_iff _ place hcolumn hkey).mpr hsole⟩

/-- A column is the unique key of its table just if no column of another name belongs to the key. -/
theorem isUniqueKey_iff_of_distinct {entity : Entity} (h : entity.DistinctColumns)
    {column : Column} (hcolumn : column ∈ entity.columns) :
    entity.isUniqueKey column.name = true ↔ column.isPrimaryKey = true ∧
      ∀ other ∈ entity.columns, other.isPrimaryKey = true →
        other.name.lower = column.name.lower := by
  have hsame : ∀ {first second : Nat} {one other : Column}, entity.columns[first]? = some one →
      entity.columns[second]? = some other → one.name.lower = other.name.lower →
        first = second := by
    intro first second one other hone hother hlower
    obtain ⟨hfirst, -⟩ := List.getElem?_eq_some_iff.mp hone
    have hindex : (entity.columns.map fun column => column.name.lower)[first]?
        = (entity.columns.map fun column => column.name.lower)[second]? := by
      rw [List.getElem?_map, List.getElem?_map, hone, hother, Option.map_some,
        Option.map_some, hlower]
    exact (List.getElem?_inj (by simpa using hfirst) h).mp hindex
  obtain ⟨place, hplace⟩ := List.mem_iff_getElem?.mp hcolumn
  have hindex : entity.columnIndex? column.name = some place := by
    refine (columnIndex?_eq_some_iff ..).mpr ⟨⟨column, hplace, rfl⟩, ?_⟩
    intro earlier other hlt hother hlower
    exact Nat.ne_of_lt hlt (hsame hother hplace hlower)
  rw [isUniqueKey_iff, hindex]
  constructor
  · rintro ⟨_, ⟨⟩, ⟨found, hfound, hkey⟩, hsole⟩
    obtain rfl : column = found := Option.some.inj (hplace.symm.trans hfound)
    refine ⟨hkey, fun other hother hotherKey => ?_⟩
    obtain ⟨otherPlace, hotherPlace⟩ := List.mem_iff_getElem?.mp hother
    obtain rfl := hsole otherPlace other hotherPlace hotherKey
    obtain rfl : column = other := Option.some.inj (hplace.symm.trans hotherPlace)
    rfl
  · rintro ⟨hkey, hothers⟩
    refine ⟨place, rfl, ⟨column, hplace, hkey⟩, fun otherPlace other hother hotherKey => ?_⟩
    exact hsame hother hplace (hothers other (List.mem_of_getElem? hother) hotherKey)

end Entity

namespace Diagram

/-- A relationship agrees with the tables of its diagram. -/
structure EdgeCoherent (diagram : Diagram) (edge : Edge Relationship) : Prop where
  /-- The source is shown, and its name stands for it. -/
  source : edge.source ∈ diagram.members ∧
    diagram.lookup? (diagram.nameOf edge.source) = some edge.source
  /-- So is the target. -/
  target : edge.target ∈ diagram.members ∧
    diagram.lookup? (diagram.nameOf edge.target) = some edge.target
  /-- The source column is the first with its name. -/
  sourceColumn : ∀ place, edge.label.sourceColumn = some place →
    ∃ table column, diagram.node? edge.source = some table ∧ IsFirstNamed table.columns place column
  /-- So is the target column. -/
  targetColumn : ∀ place, edge.label.targetColumn = some place →
    ∃ table column, diagram.node? edge.target = some table ∧ IsFirstNamed table.columns place column
  /-- The source side is one where the source column is the whole primary key. -/
  sourceSide : edge.label.cardinality.isOneAtSource = true ↔
    ∃ table place, diagram.node? edge.source = some table ∧
      edge.label.sourceColumn = some place ∧ IsSoleKey table.columns place
  /-- The target side is one where the target column belongs to the primary key. -/
  targetSide : edge.label.cardinality.isOneAtTarget = true ↔
    ∃ table place column, diagram.node? edge.target = some table ∧
      edge.label.targetColumn = some place ∧ table.columns[place]? = some column ∧
      column.isPrimaryKey = true

/-- The tables and relationships of a diagram agree. -/
structure Coherent (diagram : Diagram) : Prop where
  /-- Every shown table is there, and its flags agree. -/
  tables : ∀ node ∈ diagram.members, ∃ table, diagram.node? node = some table ∧ table.FlagsAgree
  /-- Every shown relationship is there, and agrees with its tables. -/
  relationships : ∀ number ∈ diagram.edges, ∃ edge, diagram.edge? number = some edge ∧
    diagram.EdgeCoherent edge

/-- What the relationship of a foreign key is. -/
theorem relationshipOf?_eq_some_iff (diagram : Diagram) (key : ForeignKey)
    (edge : Edge Relationship) :
    diagram.relationshipOf? key = some edge ↔
      ∃ source target, diagram.lookup? key.sourceTable = some source ∧
        diagram.lookup? key.targetTable = some target ∧
        edge = diagram.relationship source target
          (.classify ((diagram.node? source).any (·.isUniqueKey key.column))
            ((diagram.column? target (key.targetColumn.bind (diagram.columnIndex? target))).any
              (·.isPrimaryKey)))
          (diagram.columnIndex? source key.column)
          (key.targetColumn.bind (diagram.columnIndex? target)) [] := by
  unfold relationshipOf?
  cases diagram.lookup? key.sourceTable with
  | none => simp
  | some source =>
      cases diagram.lookup? key.targetTable with
      | none => simp
      | some target => simp [eq_comm]

/-- The place of a column in a shown table belongs to the first column of its name. -/
theorem isFirstNamed_of_columnIndex? {diagram : Diagram} {node place : Nat} {column : Text}
    (h : diagram.columnIndex? node column = some place) :
    ∃ table found, diagram.node? node = some table ∧ IsFirstNamed table.columns place found := by
  obtain ⟨table, htable, hplace⟩ := Option.bind_eq_some_iff.mp h
  obtain ⟨found, hfound⟩ := Entity.isFirstNamed_of_columnIndex? hplace
  exact ⟨table, found, htable, hfound⟩

/-- The relationship of a foreign key agrees with the tables of the diagram it is made for. -/
theorem edgeCoherent_of_relationshipOf? {diagram : Diagram} (h : diagram.NamesLatest)
    {key : ForeignKey} {edge : Edge Relationship}
    (hedge : diagram.relationshipOf? key = some edge) :
    diagram.EdgeCoherent edge := by
  obtain ⟨source, target, hsource, htarget, rfl⟩ := (relationshipOf?_eq_some_iff ..).mp hedge
  refine ⟨h.of_lookup? hsource, h.of_lookup? htarget, ?_, ?_, ?_, ?_⟩
  · intro place hplace
    exact isFirstNamed_of_columnIndex? hplace
  · intro place hplace
    obtain ⟨column, -, hcolumn⟩ := Option.bind_eq_some_iff.mp hplace
    exact isFirstNamed_of_columnIndex? hcolumn
  · show (Cardinality.classify _ _).isOneAtSource = true ↔ _
    rw [Cardinality.isOneAtSource_classify]
    show _ ↔ ∃ table place, diagram.node? source = some table ∧
      (diagram.node? source).bind (·.columnIndex? key.column) = some place ∧ _
    cases hnode : diagram.node? source with
    | none => simp
    | some table =>
        simp only [Option.any_some, Entity.isUniqueKey_iff, Option.bind_some, Option.some.injEq,
          exists_and_left, exists_eq_left']
  · show (Cardinality.classify _ _).isOneAtTarget = true ↔ _
    rw [Cardinality.isOneAtTarget_classify]
    show _ ↔ ∃ table place column, diagram.node? target = some table ∧
      key.targetColumn.bind (diagram.columnIndex? target) = some place ∧ _
    unfold column?
    cases hnode : diagram.node? target with
    | none => simp
    | some table =>
        cases hplace : key.targetColumn.bind (diagram.columnIndex? target) with
        | none => simp
        | some place =>
            simp [Option.any_eq_true]

/-! ### Connecting and placing

What comes after the relationships are classified leaves the tables alone but for their places in
the drawing.
-/

/-- The other diagram shows the same tables under the same names, drawn at whatever places. -/
structure SameTables (diagram other : Diagram) : Prop where
  members : other.members = diagram.members
  registry : other.registry = diagram.registry
  tables : ∀ node, (other.node? node).map (fun table => (table.name, table.columns))
    = (diagram.node? node).map fun table => (table.name, table.columns)

namespace SameTables

variable {diagram other : Diagram}

theorem refl (diagram : Diagram) : SameTables diagram diagram := ⟨rfl, rfl, fun _ => rfl⟩

theorem trans {third : Diagram} (h : SameTables diagram other) (h' : SameTables other third) :
    SameTables diagram third :=
  ⟨h'.members.trans h.members, h'.registry.trans h.registry,
    fun node => (h'.tables node).trans (h.tables node)⟩

/-- What holds of the columns of a table holds of them in the other diagram. -/
theorem exists_table (h : SameTables diagram other) (node : Nat) {P : List Column → Prop} :
    (∃ table, diagram.node? node = some table ∧ P table.columns) ↔
      ∃ table, other.node? node = some table ∧ P table.columns := by
  have htables := h.tables node
  cases hd : diagram.node? node with
  | none =>
      rw [hd] at htables
      simp [Option.map_eq_none_iff.mp htables]
  | some table =>
      rw [hd] at htables
      obtain ⟨found, hfound, heq⟩ := Option.map_eq_some_iff.mp htables
      simp only [hfound, Option.some.injEq, exists_eq_left', (Prod.mk.inj heq).2]

theorem nameOf (h : SameTables diagram other) (node : Nat) :
    other.nameOf node = diagram.nameOf node := by
  have hnames := congrArg (Option.map Prod.fst) (h.tables node)
  rw [Option.map_map, Option.map_map] at hnames
  exact congrArg (Option.getD · []) hnames

theorem lookup? (h : SameTables diagram other) (name : Text) :
    other.lookup? name = diagram.lookup? name := by
  unfold Graph.lookup?
  rw [h.registry]

theorem edgeCoherent (h : SameTables diagram other) {edge : Edge Relationship}
    (hedge : diagram.EdgeCoherent edge) : other.EdgeCoherent edge := by
  have hfirst : ∀ node place,
      (∃ table column, diagram.node? node = some table ∧ IsFirstNamed table.columns place column) →
      ∃ table column, other.node? node = some table ∧ IsFirstNamed table.columns place column := by
    rintro node place ⟨table, column, htable, hcolumn⟩
    obtain ⟨found, hfound, hagain⟩ := (h.exists_table node (P := fun columns =>
      IsFirstNamed columns place column)).mp ⟨table, htable, hcolumn⟩
    exact ⟨found, column, hfound, hagain⟩
  refine ⟨?_, ?_, ?_, ?_, ?_, ?_⟩
  · rw [h.members, h.nameOf, h.lookup?]
    exact hedge.source
  · rw [h.members, h.nameOf, h.lookup?]
    exact hedge.target
  · exact fun place hplace => hfirst _ place (hedge.sourceColumn place hplace)
  · exact fun place hplace => hfirst _ place (hedge.targetColumn place hplace)
  · have hsole := h.exists_table edge.source (P := fun columns =>
      ∃ place, edge.label.sourceColumn = some place ∧ IsSoleKey columns place)
    refine hedge.sourceSide.trans ?_
    simpa only [exists_and_left] using hsole
  · have hkey := h.exists_table edge.target (P := fun columns =>
      ∃ place column, edge.label.targetColumn = some place ∧ columns[place]? = some column ∧
        column.isPrimaryKey = true)
    refine hedge.targetSide.trans ?_
    simpa only [exists_and_left] using hkey

end SameTables

theorem sameTables_connect (diagram : Diagram) (edge : Edge Relationship) :
    SameTables diagram (diagram.connect edge) := ⟨rfl, rfl, fun _ => rfl⟩

theorem sameTables_moveTo (diagram : Diagram) (node : Nat) (position : Float × Float) :
    SameTables diagram (diagram.modify node (·.moveTo position)) := by
  refine ⟨rfl, rfl, fun other => ?_⟩
  rw [Graph.node?_modify]
  by_cases hsame : node = other
  · rw [if_pos hsame, Option.map_map]
    rfl
  · rw [if_neg hsame]

theorem sameTables_autoLayout (diagram : Diagram) (grid : Grid) :
    SameTables diagram (diagram.autoLayout grid) := by
  unfold autoLayout
  refine List.foldlRecOn (motive := SameTables diagram) diagram.members.zipIdx _
    (SameTables.refl diagram) fun placed hplaced cell _ => ?_
  exact hplaced.trans (sameTables_moveTo placed _ _)

/-- Placing the tables leaves the relationships alone. -/
theorem edges_autoLayout (diagram : Diagram) (grid : Grid) :
    (diagram.autoLayout grid).edges = diagram.edges ∧
      (diagram.autoLayout grid).edgePool = diagram.edgePool := by
  unfold autoLayout
  exact List.foldlRecOn (motive := fun placed : Diagram =>
    placed.edges = diagram.edges ∧ placed.edgePool = diagram.edgePool) _ _ ⟨rfl, rfl⟩
    fun placed hplaced cell _ => hplaced

theorem edge?_connect_of_lt {diagram : Diagram} {number : Nat}
    (h : number < diagram.edgePool.length) (edge : Edge Relationship) :
    (diagram.connect edge).edge? number = diagram.edge? number :=
  List.getElem?_append_left h

/-- Connecting one more pair of tables keeps a diagram coherent. -/
theorem Coherent.connect {diagram : Diagram} (h : diagram.Coherent) {edge : Edge Relationship}
    (hedge : diagram.EdgeCoherent edge) : Coherent (diagram.connect edge) := by
  refine ⟨h.tables, ?_⟩
  intro number hnumber
  rcases List.mem_append.mp (show number ∈ diagram.edges ++ [diagram.nextEdge] from hnumber)
    with hold | hnew
  · obtain ⟨found, hfound, hcoherent⟩ := h.relationships number hold
    obtain ⟨hlt, -⟩ := List.getElem?_eq_some_iff.mp hfound
    refine ⟨found, ?_, (sameTables_connect diagram edge).edgeCoherent hcoherent⟩
    rw [edge?_connect_of_lt hlt, hfound]
  · rw [List.mem_singleton.mp hnew]
    refine ⟨edge, ?_, (sameTables_connect diagram edge).edgeCoherent hedge⟩
    show (diagram.edgePool ++ [edge])[diagram.edgePool.length]? = some edge
    simp

/-- Resolving foreign keys makes a diagram without relationships a coherent one. -/
theorem Coherent.resolveForeignKeys {diagram : Diagram} (h : diagram.Coherent)
    (hnames : diagram.NamesLatest) (keys : List ForeignKey) :
    Coherent (diagram.resolveForeignKeys keys) := by
  unfold Diagram.resolveForeignKeys relationshipsOf
  -- The relationships were all made for the diagram at the start; each step only connects.
  refine (List.foldlRecOn (motive := fun connected : Diagram =>
      connected.Coherent ∧ SameTables diagram connected) _ _
    ⟨h, SameTables.refl diagram⟩ ?_).1
  rintro connected ⟨hcoherent, hsame⟩ edge hedge
  obtain ⟨key, -, hkey⟩ := List.mem_filterMap.mp hedge
  have hnew := hsame.edgeCoherent (edgeCoherent_of_relationshipOf? hnames hkey)
  exact ⟨hcoherent.connect hnew, hsame.trans (sameTables_connect connected edge)⟩

/-- Placing the tables keeps a diagram coherent. -/
theorem Coherent.autoLayout {diagram : Diagram} (h : diagram.Coherent) (grid : Grid) :
    Coherent (diagram.autoLayout grid) := by
  have hsame := sameTables_autoLayout diagram grid
  have hedges := edges_autoLayout diagram grid
  refine ⟨?_, ?_⟩
  · intro node hnode
    rw [hsame.members] at hnode
    exact (hsame.exists_table node (P := fun columns => ∀ column ∈ columns, column.FlagsAgree)).mp
      (h.tables node hnode)
  · intro number hnumber
    rw [hedges.1] at hnumber
    obtain ⟨edge, hedge, hcoherent⟩ := h.relationships number hnumber
    refine ⟨edge, ?_, hsame.edgeCoherent hcoherent⟩
    show (diagram.autoLayout grid).edgePool[number]? = some edge
    rw [hedges.2]
    exact hedge

end Diagram

end Diagrams.Er
