/-
What a class diagram looks like once its edges are resolved.

Resolving starts from the declared types, without edges, and only ever adds: a stub and the edge
that called for it, or an edge alone.  `Resolving` is what each addition keeps, and `Grows` says
what a row of additions in one role leaves behind: stubs of that role, each at the end of an edge of
that role.  Supertypes come first, so a stub made for a supertype may be an interface of another
type, but no edge to a supertype ends at a stub that was made for an interface.

Compositions are made last and for a diagram that no longer changes, so they can be counted field by
field (`countP_compositions`).
-/
import Mathlib.Data.List.Nodup
import Diagrams.Proofs.Uml.TypeEdge

namespace Diagrams.Uml

/-- What a declaration says about its type before any member is read. -/
def Class.heading (type : Class) : Text × Kind × Option Text :=
  (type.name, type.kind, type.package)

namespace Diagram

/-- A diagram with declared types alone. -/
structure Declares (headings : List (Text × Kind × Option Text)) (diagram : Diagram) : Prop where
  consistent : Graph.Consistent diagram
  /-- Names regard case. -/
  key : ∀ name, diagram.registry.key name = name
  /-- Every type is shown, in the order in which it was made. -/
  members : diagram.members = List.range diagram.pool.length
  pool : diagram.pool.map Class.heading = headings
  declared : ∀ type ∈ diagram.pool, type.isStub = false
  edges : diagram.edges = []
  edgePool : diagram.edgePool = []

/-- A diagram whose first `count` types are declared, while stubs and edges are added. -/
structure Resolving (count : Nat) (diagram : Diagram) : Prop where
  consistent : Graph.Consistent diagram
  /-- Names regard case. -/
  key : ∀ name, diagram.registry.key name = name
  /-- Every type is shown, in the order in which it was made. -/
  members : diagram.members = List.range diagram.pool.length
  /-- Every edge is shown, in the order in which it was made. -/
  edges : diagram.edges = List.range diagram.edgePool.length
  /-- A stub has another name than all types in front of it. -/
  fresh : ∀ place stub earlier other, count ≤ place → diagram.pool[place]? = some stub →
    earlier < place → diagram.pool[earlier]? = some other → other.name ≠ stub.name
  /-- Names stand for the ends of every edge. -/
  named : ∀ edge ∈ diagram.edgePool,
    diagram.lookup? (diagram.nameOf edge.source) = some edge.source ∧
      diagram.lookup? (diagram.nameOf edge.target) = some edge.target

/-- The second diagram is the first with stubs and edges of one role added to it. -/
structure Grows (role : Role) (diagram next : Diagram) : Prop where
  pool : ∃ added, next.pool = diagram.pool ++ added ∧
    ∀ stub ∈ added, ∃ name, stub = .stub name role.stubKind
  edges : ∃ added, next.edgePool = diagram.edgePool ++ added ∧
    (∀ edge ∈ added, edge.label.kind = role.relationshipKind) ∧
    ∀ node, diagram.pool.length ≤ node → node < next.pool.length → ∃ edge ∈ added,
      edge.target = node

namespace Grows

variable {role : Role} {diagram next third : Diagram}

theorem refl (role : Role) (diagram : Diagram) : Grows role diagram diagram :=
  ⟨⟨[], by simp⟩, ⟨[], by simp, by simp, fun _ hle hlt => absurd hle (Nat.not_le_of_lt hlt)⟩⟩

theorem trans (h : Grows role diagram next) (h' : Grows role next third) :
    Grows role diagram third := by
  obtain ⟨stubs, hpool, hstubs⟩ := h.pool
  obtain ⟨stubs', hpool', hstubs'⟩ := h'.pool
  obtain ⟨edges, hedges, hkinds, hreached⟩ := h.edges
  obtain ⟨edges', hedges', hkinds', hreached'⟩ := h'.edges
  refine ⟨⟨stubs ++ stubs', ?_, ?_⟩, ⟨edges ++ edges', ?_, ?_, ?_⟩⟩
  · rw [hpool', hpool, List.append_assoc]
  · intro stub hstub
    rcases List.mem_append.mp hstub with hold | hnew
    · exact hstubs stub hold
    · exact hstubs' stub hnew
  · rw [hedges', hedges, List.append_assoc]
  · intro edge hedge
    rcases List.mem_append.mp hedge with hold | hnew
    · exact hkinds edge hold
    · exact hkinds' edge hnew
  · intro node hle hlt
    rcases Nat.lt_or_ge node next.pool.length with hbefore | hafter
    · obtain ⟨edge, hedge, htarget⟩ := hreached node hle hbefore
      exact ⟨edge, List.mem_append_left _ hedge, htarget⟩
    · obtain ⟨edge, hedge, htarget⟩ := hreached' node hafter hlt
      exact ⟨edge, List.mem_append_right _ hedge, htarget⟩

/-- What was in the pool is there still. -/
theorem node?_eq (h : Grows role diagram next) {node : Nat} (hlt : node < diagram.pool.length) :
    next.node? node = diagram.node? node := by
  obtain ⟨added, hpool, -⟩ := h.pool
  show next.pool[node]? = diagram.pool[node]?
  rw [hpool, List.getElem?_append_left hlt]

/-- A new type is a stub of the role, and an edge of the role ends there. -/
theorem of_new (h : Grows role diagram next) {node : Nat} (hle : diagram.pool.length ≤ node)
    {type : Class} (htype : next.node? node = some type) :
    (∃ name, type = .stub name role.stubKind) ∧
      ∃ edge ∈ next.edgePool, edge.target = node ∧ edge.label.kind = role.relationshipKind := by
  obtain ⟨stubs, hpool, hstubs⟩ := h.pool
  obtain ⟨edges, hedges, hkinds, hreached⟩ := h.edges
  constructor
  · change next.pool[node]? = some type at htype
    rw [hpool, List.getElem?_append_right hle] at htype
    exact hstubs type (List.mem_of_getElem? htype)
  · obtain ⟨edge, hedge, htarget⟩ := hreached node hle (List.getElem?_eq_some_iff.mp htype).1
    exact ⟨edge, hedges ▸ List.mem_append_right _ hedge, htarget, hkinds edge hedge⟩

theorem mem_edgePool (h : Grows role diagram next) {edge : Edge Relationship}
    (hedge : edge ∈ diagram.edgePool) : edge ∈ next.edgePool := by
  obtain ⟨added, hedges, -⟩ := h.edges
  exact hedges ▸ List.mem_append_left _ hedge

/-- An edge of another kind was there before. -/
theorem mem_of_kind_ne (h : Grows role diagram next) {edge : Edge Relationship}
    (hedge : edge ∈ next.edgePool) (hkind : edge.label.kind ≠ role.relationshipKind) :
    edge ∈ diagram.edgePool := by
  obtain ⟨added, hedges, hkinds, -⟩ := h.edges
  rw [hedges] at hedge
  exact (List.mem_append.mp hedge).resolve_right fun hnew => hkind (hkinds edge hnew)

end Grows

namespace Resolving

variable {count : Nat} {diagram : Diagram}

theorem lt_of_lookup? (h : Resolving count diagram) {name : Text} {node : Nat}
    (hnode : diagram.lookup? name = some node) : node < diagram.pool.length :=
  h.consistent.inPool.members node (h.consistent.names.of_lookup? hnode).1

/-- A name that stands for nothing is no type's name. -/
theorem name_ne_of_free (h : Resolving count diagram) {name : Text}
    (hfree : diagram.lookup? name = none) {place : Nat} {type : Class}
    (htype : diagram.pool[place]? = some type) : type.name ≠ name := by
  have hlt : place < diagram.pool.length := (List.getElem?_eq_some_iff.mp htype).1
  have hmem : place ∈ diagram.members := by
    rw [h.members]
    exact List.mem_range.mpr hlt
  have hname : diagram.nameOf place = type.name := by
    show ((diagram.pool[place]?).map Named.name).getD [] = _
    rw [htype]
    rfl
  have hfaithful : Graph.Faithful id diagram := h.consistent.faithful h.key
  rw [← hname]
  exact (hfaithful.unknown name).mp hfree place hmem

theorem connect (h : Resolving count diagram) {edge : Edge Relationship}
    (hsource : diagram.lookup? (diagram.nameOf edge.source) = some edge.source)
    (htarget : diagram.lookup? (diagram.nameOf edge.target) = some edge.target) :
    Resolving count (Graph.connect diagram edge) := by
  have hends := h.consistent.connect (h.consistent.names.of_lookup? hsource).1
    (h.consistent.names.of_lookup? htarget).1
  refine ⟨hends, h.key, h.members, ?_, h.fresh, ?_⟩
  · show diagram.edges ++ [diagram.edgePool.length]
      = List.range (diagram.edgePool ++ [edge]).length
    rw [h.edges, List.length_append, List.length_singleton, List.range_succ]
  · intro other hother
    rcases List.mem_append.mp (show other ∈ diagram.edgePool ++ [edge] from hother) with hold | hnew
    · exact h.named other hold
    · rw [List.mem_singleton.mp hnew]
      exact ⟨hsource, htarget⟩

/-- The names of the types stand for what they stood for after a stub is inserted. -/
theorem lookup?_insert_stub (h : Resolving count diagram) {name : Text}
    (hfree : diagram.lookup? name = none) (kind : Kind) {node : Nat}
    (hnode : diagram.lookup? (diagram.nameOf node) = some node) :
    (Graph.insert diagram (.stub name kind)).lookup?
        ((Graph.insert diagram (.stub name kind)).nameOf node) = some node := by
  have hlt := h.lt_of_lookup? hnode
  have hne : diagram.nameOf node ≠ Named.name (Class.stub name kind) := by
    intro heq
    rw [heq] at hnode
    exact absurd (hnode.symm.trans hfree) (Option.some_ne_none node)
  rw [Graph.nameOf_insert, Graph.nameOf_create_of_lt hlt, Graph.lookup?_insert, h.key, h.key,
    if_neg hne]
  exact hnode

theorem insert_stub (h : Resolving count diagram) {name : Text}
    (hfree : diagram.lookup? name = none) (kind : Kind) :
    Resolving count (Graph.insert diagram (.stub name kind)) := by
  refine ⟨h.consistent.insert _, h.key, Graph.members_insert_range _ h.members, h.edges, ?_, ?_⟩
  · intro place stub earlier other hplace hstub hearlier hother
    rw [Graph.pool_insert] at hstub hother
    rcases Nat.lt_or_ge place diagram.pool.length with hlt | hge
    · rw [List.getElem?_append_left hlt] at hstub
      rw [List.getElem?_append_left (Nat.lt_trans hearlier hlt)] at hother
      exact h.fresh place stub earlier other hplace hstub hearlier hother
    · -- The stub at the end is the new one, and its name was free.
      have hend : place = diagram.pool.length := by
        have := (List.getElem?_eq_some_iff.mp hstub).1
        rw [List.length_append, List.length_singleton] at this
        omega
      subst hend
      rw [List.getElem?_append_left hearlier] at hother
      have hnew : Class.stub name kind = stub := by simpa using hstub
      rw [← hnew]
      exact h.name_ne_of_free hfree hother
  · exact fun edge hedge => ⟨h.lookup?_insert_stub hfree kind (h.named edge hedge).1,
      h.lookup?_insert_stub hfree kind (h.named edge hedge).2⟩

theorem lookup?_new_stub (h : Resolving count diagram) (name : Text) (kind : Kind) :
    (Graph.insert diagram (.stub name kind)).lookup?
        ((Graph.insert diagram (.stub name kind)).nameOf diagram.nextNode)
      = some diagram.nextNode := by
  have hname : (Graph.insert diagram (.stub name kind)).nameOf diagram.nextNode = name := by
    rw [Graph.nameOf_insert, Graph.nameOf, Graph.node?_create_nextNode]
    rfl
  rw [hname, Graph.lookup?_insert, h.key, h.key]
  exact if_pos rfl

/-- Resolving one edge: at most one stub and one edge come in addition. -/
theorem resolveEdge (h : Resolving count diagram) (role : Role) (notes : List StubNote)
    (edge : TypeEdge) :
    Resolving count (Diagram.resolveEdge role (diagram, notes) edge).1 ∧
      Grows role diagram (Diagram.resolveEdge role (diagram, notes) edge).1 := by
  cases hsource : diagram.lookup? edge.source with
  | none =>
      rw [resolveEdge_of_unknown hsource]
      exact ⟨h, .refl role diagram⟩
  | some source =>
      have hsource' := (h.consistent.names.of_lookup? hsource).2
      rw [resolveEdge_of_known hsource]
      cases htarget : diagram.lookup? edge.target with
      | some target =>
          rw [resolveOrStub_of_known htarget]
          have htarget' := (h.consistent.names.of_lookup? htarget).2
          refine ⟨h.connect hsource' htarget',
            ⟨⟨[], by simp [Graph.connect, Graph.createEdge, Graph.addEdge]⟩,
              ⟨[_], rfl, by simp, ?_⟩⟩⟩
          exact fun _ hle hlt => absurd hle (Nat.not_le_of_lt hlt)
      | none =>
          rw [resolveOrStub_of_free htarget]
          have hinserted := h.insert_stub htarget role.stubKind
          refine ⟨hinserted.connect (h.lookup?_insert_stub htarget _ hsource')
            (h.lookup?_new_stub _ _), ⟨⟨[_], rfl, ?_⟩, ⟨[_], rfl, by simp, ?_⟩⟩⟩
          · exact fun stub hstub => ⟨edge.target, List.mem_singleton.mp hstub⟩
          · intro node hle hlt
            have hlast : node = diagram.nextNode := by
              change node < (diagram.pool ++ [Class.stub edge.target role.stubKind]).length at hlt
              rw [List.length_append, List.length_singleton] at hlt
              unfold Graph.nextNode
              omega
            exact ⟨_, List.mem_singleton_self _, hlast.symm⟩

/-- Resolving the edges of one role, one after the other. -/
theorem foldl_resolveEdge (h : Resolving count diagram) (role : Role) (edges : List TypeEdge)
    (notes : List StubNote) :
    Resolving count (edges.foldl (Diagram.resolveEdge role) (diagram, notes)).1 ∧
      Grows role diagram (edges.foldl (Diagram.resolveEdge role) (diagram, notes)).1 := by
  refine List.foldlRecOn (motive := fun state : Diagram × List StubNote =>
    Resolving count state.1 ∧ Grows role diagram state.1) edges _ ⟨h, .refl role diagram⟩ ?_
  rintro ⟨reached, notes⟩ ⟨hreached, hgrown⟩ edge -
  obtain ⟨hnext, hgrows⟩ := hreached.resolveEdge role notes edge
  exact ⟨hnext, hgrown.trans hgrows⟩

end Resolving

theorem Declares.resolving {headings : List (Text × Kind × Option Text)} {diagram : Diagram}
    (h : diagram.Declares headings) : Resolving headings.length diagram := by
  have hlength : diagram.pool.length = headings.length := by rw [← h.pool, List.length_map]
  refine ⟨h.consistent, h.key, h.members, ?_, ?_, ?_⟩
  · rw [h.edges, h.edgePool]
    rfl
  · intro place stub earlier other hplace hstub
    have := (List.getElem?_eq_some_iff.mp hstub).1
    omega
  · rw [h.edgePool]
    exact fun _ hedge => absurd hedge List.not_mem_nil

/-! ### Counting compositions -/

theorem countP_flatMap_of_nodup {α : Type} {items : List Nat} (h : items.Nodup) {item : Nat}
    (hitem : item ∈ items) (f : Nat → List α) (p : α → Bool)
    (hother : ∀ other, other ≠ item → ∀ made ∈ f other, p made = false) :
    (items.flatMap f).countP p = (f item).countP p := by
  have hnone : ∀ others : List Nat, item ∉ others → (others.flatMap f).countP p = 0 := by
    intro others habsent
    rw [List.countP_eq_zero]
    intro made hmade
    obtain ⟨other, hmem, hin⟩ := List.mem_flatMap.mp hmade
    have hne : other ≠ item := fun heq => habsent (heq ▸ hmem)
    simp [hother other hne made hin]
  obtain ⟨before, after, rfl⟩ := List.append_of_mem hitem
  have habsent : item ∉ before ∧ item ∉ after := by
    rw [List.nodup_middle, List.nodup_cons, List.mem_append] at h
    exact not_or.mp h.1
  rw [List.flatMap_append, List.flatMap_cons, List.countP_append, List.countP_append,
    hnone before habsent.1, hnone after habsent.2, Nat.zero_add, Nat.add_zero]

/-- From a type to another one there is one composition for each field whose type is the name of the
other and is no common one, provided that the name stands for the other. -/
theorem countP_compositions {diagram : Diagram} (h : Graph.Consistent diagram)
    (hkey : ∀ name, diagram.registry.key name = name) (hnodup : diagram.members.Nodup)
    {owner target : Nat} (howner : owner ∈ diagram.members) {type : Class}
    (htype : diagram.node? owner = some type) :
    diagram.compositions.countP (fun edge => edge.source = owner ∧ edge.target = target)
      = if diagram.lookup? (diagram.nameOf target) = some target
        then type.fields.countP fun field =>
          field.type = diagram.nameOf target ∧ isCommonType field.type = false
        else 0 := by
  have hfrom : ∀ other, other ≠ owner → ∀ edge ∈ ((diagram.node? other).map (·.fields)).getD []
      |>.filterMap (diagram.compositionOf? other),
      decide (edge.source = owner ∧ edge.target = target) = false := by
    intro other hne edge hedge
    obtain ⟨field, -, hfield⟩ := List.mem_filterMap.mp hedge
    obtain ⟨-, _, -, rfl⟩ := (compositionOf?_eq_some_iff ..).mp hfield
    simp [hne]
  unfold compositions
  rw [countP_flatMap_of_nodup hnodup howner _ _ hfrom, htype]
  -- What a name stands for is called by that name.
  have hnamed : ∀ name node, diagram.lookup? name = some node → diagram.nameOf node = name := by
    intro name node hnode
    rw [h.names.lookup?_eq] at hnode
    have := (Graph.mem_of_latestNamed? hnode).2
    rwa [hkey, hkey] at this
  show (type.fields.filterMap (diagram.compositionOf? owner)).countP _ = _
  rw [List.countP_filterMap]
  have hfield : ∀ field, ((diagram.compositionOf? owner field).map
        fun edge => decide (edge.source = owner ∧ edge.target = target)).getD false = true ↔
      isCommonType field.type = false ∧ diagram.lookup? field.type = some target := by
    intro field
    unfold compositionOf?
    cases isCommonType field.type with
    | true => simp
    | false =>
        cases diagram.lookup? field.type with
        | none => simp
        | some node => simp
  by_cases hlatest : diagram.lookup? (diagram.nameOf target) = some target
  · rw [if_pos hlatest]
    refine List.countP_congr fun field _ => ?_
    rw [hfield, decide_eq_true_iff]
    constructor
    · exact fun ⟨hcommon, hlookup⟩ => ⟨(hnamed _ _ hlookup).symm, hcommon⟩
    · rintro ⟨hname, hcommon⟩
      exact ⟨hcommon, hname ▸ hlatest⟩
  · rw [if_neg hlatest, List.countP_eq_zero]
    intro field _ hcounted
    obtain ⟨-, hlookup⟩ := (hfield field).mp hcounted
    exact hlatest (h.names.of_lookup? hlookup).2

/-! ### The whole -/

/-- What a diagram looks like whose types were declared under these headings and whose edges are
resolved. -/
structure Resolved (headings : List (Text × Kind × Option Text)) (diagram : Diagram) : Prop where
  /-- The declared types come first, in their order, and then the stubs.  Stubs are empty, and have
  names that no other type has. -/
  types : ∃ declared stubs : List Class, diagram.nodes = declared ++ stubs ∧
    declared.map Class.heading = headings ∧ (∀ type ∈ declared, type.isStub = false) ∧
    (∀ stub ∈ stubs, ∃ name kind, stub = .stub name kind) ∧
    (stubs.map Class.name).Nodup ∧ ∀ stub ∈ stubs, ∀ type ∈ declared, type.name ≠ stub.name
  /-- No type is shown twice. -/
  once : diagram.members.Nodup
  /-- A name stands for the last type of that name. -/
  names : Graph.Faithful id diagram
  /-- A stub that is no interface is the supertype of a type. -/
  supertypeStub : ∀ node stub, diagram.node? node = some stub → stub.isStub = true →
    stub.kind = .ordinary →
    ∃ edge ∈ diagram.shownEdges, edge.target = node ∧ edge.label.kind = .inheritance
  /-- A stub that is an interface is an interface of a type, and the supertype of none. -/
  interfaceStub : ∀ node stub, diagram.node? node = some stub → stub.isStub = true →
    stub.kind = .interface →
    (∃ edge ∈ diagram.shownEdges, edge.target = node ∧ edge.label.kind = .implementation) ∧
      ∀ edge ∈ diagram.shownEdges, edge.target = node → edge.label.kind ≠ .inheritance
  /-- Edges to supertypes come before those to interfaces, and compositions come last. -/
  order : ∃ supertypes interfaces compositions,
    diagram.shownEdges = supertypes ++ interfaces ++ compositions ∧
    (∀ edge ∈ supertypes, edge.label.kind = .inheritance) ∧
    (∀ edge ∈ interfaces, edge.label.kind = .implementation) ∧
    ∀ edge ∈ compositions, edge.label.kind = .composition
  /-- Every edge ends at a type that its name stands for. -/
  target : ∀ edge ∈ diagram.shownEdges,
    diagram.lookup? (diagram.nameOf edge.target) = some edge.target
  /-- Edges to supertypes and interfaces start at a type that its name stands for. -/
  source : ∀ edge ∈ diagram.shownEdges, edge.label.kind ≠ .composition →
    diagram.lookup? (diagram.nameOf edge.source) = some edge.source
  /-- From a type to another one there are as many compositions as it has fields of that type that
  is no common one, if the name stands for the other, and none if not. -/
  compositions : ∀ owner target type, diagram.node? owner = some type →
    diagram.shownEdges.countP
        (fun edge => edge.source = owner ∧ edge.target = target ∧ edge.label.kind = .composition)
      = if diagram.lookup? (diagram.nameOf target) = some target
        then type.fields.countP fun field =>
          field.type = diagram.nameOf target ∧ isCommonType field.type = false
        else 0

/-- The types after the declared ones have different names, which no declared type has. -/
theorem Resolving.names_drop {count : Nat} {diagram : Diagram} (h : Resolving count diagram) :
    ((diagram.pool.drop count).map Class.name).Nodup ∧
      ∀ stub ∈ diagram.pool.drop count, ∀ type ∈ diagram.pool.take count,
        type.name ≠ stub.name := by
  constructor
  · rw [List.nodup_iff_pairwise_ne, List.pairwise_map, List.pairwise_iff_getElem]
    intro earlier place hearlier hplace hlt
    rw [List.getElem_drop, List.getElem_drop]
    rw [List.length_drop] at hearlier hplace
    exact h.fresh (count + place) _ (count + earlier) _ (Nat.le_add_right _ _)
      (List.getElem?_eq_getElem (by omega)) (by omega) (List.getElem?_eq_getElem (by omega))
  · intro stub hstub type htype
    obtain ⟨place, hplace⟩ := List.mem_iff_getElem?.mp hstub
    obtain ⟨earlier, hearlier⟩ := List.mem_iff_getElem?.mp htype
    rw [List.getElem?_drop] at hplace
    rw [List.getElem?_take] at hearlier
    split at hearlier
    · rename_i hlt
      exact h.fresh (count + place) stub earlier type (Nat.le_add_right _ _) hplace (by omega)
        hearlier
    · exact absurd hearlier.symm (Option.some_ne_none type)

/-- Every type in the pool is shown under its number. -/
theorem nodes_of_members {diagram : Diagram}
    (h : diagram.members = List.range diagram.pool.length) : diagram.nodes = diagram.pool := by
  unfold Graph.nodes
  rw [h]
  exact Graph.filterMap_getElem?_range diagram.pool

/-- The edges of a diagram whose compositions are inferred. -/
theorem shownEdges_inferCompositions {diagram : Diagram}
    (h : diagram.edges = List.range diagram.edgePool.length) :
    Graph.shownEdges diagram.inferCompositions = diagram.edgePool ++ diagram.compositions := by
  have hedges : diagram.inferCompositions.edges
      = List.range (diagram.edgePool ++ diagram.compositions).length := by
    unfold inferCompositions
    rw [Graph.foldl_connect, List.length_append, List.range_eq_range', ← List.range'_append_1,
      h, List.range_eq_range', Nat.zero_add]
    rfl
  have hpool : diagram.inferCompositions.edgePool = diagram.edgePool ++ diagram.compositions := by
    unfold inferCompositions
    rw [Graph.foldl_connect]
  unfold Graph.shownEdges
  rw [hedges, ← hpool]
  exact Graph.filterMap_getElem?_range _

theorem kind_of_mem_compositions {diagram : Diagram} {edge : Edge Relationship}
    (h : edge ∈ diagram.compositions) : edge.label.kind = .composition := by
  obtain ⟨owner, -, type, -, field, -, hfield⟩ := (mem_compositions ..).mp h
  obtain ⟨-, target, -, rfl⟩ := (compositionOf?_eq_some_iff ..).mp hfield
  rfl

/-- A composition ends at a type that its name stands for. -/
theorem lookup?_of_mem_compositions {diagram : Diagram} (h : Graph.Consistent diagram)
    {edge : Edge Relationship} (hedge : edge ∈ diagram.compositions) :
    diagram.lookup? (diagram.nameOf edge.target) = some edge.target := by
  obtain ⟨owner, -, type, -, field, -, hfield⟩ := (mem_compositions ..).mp hedge
  obtain ⟨-, target, htarget, rfl⟩ := (compositionOf?_eq_some_iff ..).mp hfield
  exact (h.names.of_lookup? htarget).2

/-- Where no edge is a composition yet, those that are shown in the end are the inferred ones. -/
theorem countP_shownEdges_inferCompositions {diagram : Diagram}
    (h : diagram.edges = List.range diagram.edgePool.length)
    (hkind : ∀ edge ∈ diagram.edgePool, edge.label.kind ≠ .composition) (owner target : Nat) :
    (Graph.shownEdges diagram.inferCompositions).countP
        (fun edge => edge.source = owner ∧ edge.target = target ∧ edge.label.kind = .composition)
      = diagram.compositions.countP fun edge => edge.source = owner ∧ edge.target = target := by
  have hnone : diagram.edgePool.countP (fun edge =>
      edge.source = owner ∧ edge.target = target ∧ edge.label.kind = .composition) = 0 := by
    rw [List.countP_eq_zero]
    intro edge hedge
    simp [hkind edge hedge]
  rw [shownEdges_inferCompositions h, List.countP_append, hnone, Nat.zero_add]
  refine List.countP_congr fun edge hedge => ?_
  simp [kind_of_mem_compositions hedge]

/-- Inferring compositions adds edges and changes nothing else. -/
theorem inferCompositions_eq (diagram : Diagram) :
    diagram.inferCompositions = { diagram with
      edges := diagram.inferCompositions.edges
      edgePool := diagram.inferCompositions.edgePool } := by
  unfold inferCompositions
  rw [Graph.foldl_connect]

/-! ### Both roles, one after the other -/

section

variable {headings : List (Text × Kind × Option Text)} {diagram first second : Diagram}

/-- Only types that were added are stubs. -/
theorem Declares.le_of_isStub (h : diagram.Declares headings)
    (hsupertypes : Grows .supertype diagram first) (hinterfaces : Grows .interface first second)
    {node : Nat} {stub : Class} (hnode : second.node? node = some stub)
    (hstub : stub.isStub = true) : diagram.pool.length ≤ node := by
  refine Nat.le_of_not_lt fun hlt => ?_
  obtain ⟨added, hpool, -⟩ := hsupertypes.pool
  have hle : node < first.pool.length := by
    rw [hpool, List.length_append]
    omega
  rw [hinterfaces.node?_eq hle, hsupertypes.node?_eq hlt] at hnode
  exact Bool.noConfusion (hstub.symm.trans (h.declared stub (List.mem_of_getElem? hnode)))

/-- A stub that is no interface was made for an edge to a supertype. -/
theorem Declares.exists_inheritance (h : diagram.Declares headings)
    (hsupertypes : Grows .supertype diagram first) (hinterfaces : Grows .interface first second)
    {node : Nat} {stub : Class} (hnode : second.node? node = some stub)
    (hstub : stub.isStub = true) (hkind : stub.kind = .ordinary) :
    ∃ edge ∈ second.edgePool, edge.target = node ∧ edge.label.kind = .inheritance := by
  have hold : node < first.pool.length := by
    refine Nat.lt_of_not_le fun hle => ?_
    obtain ⟨⟨name, rfl⟩, -⟩ := hinterfaces.of_new hle hnode
    exact Kind.noConfusion hkind
  have hnode' : first.node? node = some stub := (hinterfaces.node?_eq hold).symm.trans hnode
  obtain ⟨-, edge, hedge, htarget, hedgeKind⟩ :=
    hsupertypes.of_new (h.le_of_isStub hsupertypes hinterfaces hnode hstub) hnode'
  exact ⟨edge, hinterfaces.mem_edgePool hedge, htarget, hedgeKind⟩

/-- A stub that is an interface was made after all edges to supertypes. -/
theorem Declares.length_le_of_interface (h : diagram.Declares headings)
    (hsupertypes : Grows .supertype diagram first) (hinterfaces : Grows .interface first second)
    {node : Nat} {stub : Class} (hnode : second.node? node = some stub)
    (hstub : stub.isStub = true) (hkind : stub.kind = .interface) : first.pool.length ≤ node := by
  refine Nat.le_of_not_lt fun hlt => ?_
  have hnode' : first.node? node = some stub := (hinterfaces.node?_eq hlt).symm.trans hnode
  obtain ⟨⟨name, rfl⟩, -⟩ :=
    hsupertypes.of_new (h.le_of_isStub hsupertypes hinterfaces hnode hstub) hnode'
  exact Kind.noConfusion hkind

/-- No edge to a supertype ends at a type that was added for an interface. -/
theorem Resolving.kind_ne_inheritance {count : Nat} (hfirst : Resolving count first)
    (hinterfaces : Grows .interface first second) {edge : Edge Relationship}
    (hedge : edge ∈ second.edgePool) (hlate : first.pool.length ≤ edge.target) :
    edge.label.kind ≠ .inheritance := by
  intro hkind
  have hearly : edge ∈ first.edgePool := hinterfaces.mem_of_kind_ne hedge (by
    rw [hkind]
    exact RelationshipKind.noConfusion)
  have hlt := hfirst.lt_of_lookup? (hfirst.named edge hearly).2
  omega

/-- The types are the declared ones and then stubs. -/
theorem Declares.types (h : diagram.Declares headings) (hsecond : Resolving headings.length second)
    (hsupertypes : Grows .supertype diagram first) (hinterfaces : Grows .interface first second) :
    ∃ stubs, second.pool = diagram.pool ++ stubs ∧
      (∀ stub ∈ stubs, ∃ name kind, stub = .stub name kind) ∧
      (stubs.map Class.name).Nodup ∧
      ∀ stub ∈ stubs, ∀ type ∈ diagram.pool, type.name ≠ stub.name := by
  have hcount : diagram.pool.length = headings.length := by rw [← h.pool, List.length_map]
  obtain ⟨supers, hpool₁, hsupers⟩ := hsupertypes.pool
  obtain ⟨faces, hpool₂, hfaces⟩ := hinterfaces.pool
  have hpool : second.pool = diagram.pool ++ (supers ++ faces) := by
    rw [hpool₂, hpool₁, List.append_assoc]
  refine ⟨supers ++ faces, hpool, ?_, ?_⟩
  · intro stub hstub
    rcases List.mem_append.mp hstub with hsuper | hface
    · exact (hsupers stub hsuper).imp fun _ heq => ⟨_, heq⟩
    · exact (hfaces stub hface).imp fun _ heq => ⟨_, heq⟩
  · have hnames := hsecond.names_drop
    rwa [hpool, ← hcount, List.drop_left, List.take_left] at hnames

/-- Resolving supertypes, then interfaces, and then inferring compositions. -/
theorem Declares.resolved_of_grows (h : diagram.Declares headings)
    (hfirst : Resolving headings.length first) (hsupertypes : Grows .supertype diagram first)
    (hsecond : Resolving headings.length second) (hinterfaces : Grows .interface first second) :
    Resolved headings second.inferCompositions := by
  have hshown := shownEdges_inferCompositions hsecond.edges
  have hframe := inferCompositions_eq second
  have hnodup : second.members.Nodup := hsecond.members ▸ List.nodup_range
  obtain ⟨stubs, hpool, hstubs⟩ := h.types hsecond hsupertypes hinterfaces
  obtain ⟨inherited, hinherited, hinheritedKind, -⟩ := hsupertypes.edges
  obtain ⟨implemented, himplemented, himplementedKind, -⟩ := hinterfaces.edges
  have hedgePool : second.edgePool = inherited ++ implemented := by
    rw [himplemented, hinherited, h.edgePool, List.nil_append]
  exact {
    types := by
      refine ⟨diagram.pool, stubs, ?_, h.pool, h.declared, hstubs⟩
      rw [hframe, ← hpool]
      exact nodes_of_members hsecond.members
    once := by
      rw [hframe]
      exact hnodup
    names := by
      refine (consistent_inferCompositions hsecond.consistent).faithful ?_
      rw [hframe]
      exact hsecond.key
    supertypeStub := by
      intro node stub hnode hstub hkind
      rw [hframe] at hnode
      obtain ⟨edge, hedge, hends⟩ :=
        h.exists_inheritance hsupertypes hinterfaces hnode hstub hkind
      rw [hshown]
      exact ⟨edge, List.mem_append_left _ hedge, hends⟩
    interfaceStub := by
      intro node stub hnode hstub hkind
      rw [hframe] at hnode
      have hlate := h.length_le_of_interface hsupertypes hinterfaces hnode hstub hkind
      obtain ⟨-, found, hfound, hends⟩ := hinterfaces.of_new hlate hnode
      rw [hshown]
      refine ⟨⟨found, List.mem_append_left _ hfound, hends⟩, fun edge hedge htarget => ?_⟩
      rcases List.mem_append.mp hedge with hresolved | hcomposed
      · exact hfirst.kind_ne_inheritance hinterfaces hresolved (htarget ▸ hlate)
      · rw [kind_of_mem_compositions hcomposed]
        exact RelationshipKind.noConfusion
    order := by
      refine ⟨inherited, implemented, second.compositions, ?_, hinheritedKind, himplementedKind,
        fun edge => kind_of_mem_compositions⟩
      rw [hshown, hedgePool]
    target := by
      intro edge hedge
      rw [hshown] at hedge
      rw [hframe]
      rcases List.mem_append.mp hedge with hresolved | hcomposed
      · exact (hsecond.named edge hresolved).2
      · exact lookup?_of_mem_compositions hsecond.consistent hcomposed
    source := by
      intro edge hedge hkind
      rw [hshown] at hedge
      rw [hframe]
      rcases List.mem_append.mp hedge with hresolved | hcomposed
      · exact (hsecond.named edge hresolved).1
      · exact absurd (kind_of_mem_compositions hcomposed) hkind
    compositions := by
      intro owner target type hnode
      rw [hframe] at hnode
      have howner : owner ∈ second.members := by
        rw [hsecond.members]
        exact List.mem_range.mpr (List.getElem?_eq_some_iff.mp hnode).1
      have hkind : ∀ edge ∈ second.edgePool, edge.label.kind ≠ .composition := by
        intro edge hedge
        rcases List.mem_append.mp (hedgePool ▸ hedge) with hin | hin
        · simp [hinheritedKind edge hin, Role.relationshipKind]
        · simp [himplementedKind edge hin, Role.relationshipKind]
      rw [countP_shownEdges_inferCompositions hsecond.edges hkind, hframe]
      exact countP_compositions hsecond.consistent hsecond.key hnodup howner hnode }

end

/-- Resolving the edges of declared types, and then inferring compositions. -/
theorem Declares.resolved {headings : List (Text × Kind × Option Text)} {diagram : Diagram}
    (h : diagram.Declares headings) (supertypes interfaces : List TypeEdge) :
    Resolved headings (diagram.resolveTypeEdges supertypes interfaces).1.inferCompositions := by
  have hfirst := h.resolving.foldl_resolveEdge .supertype supertypes []
  have hsecond := hfirst.1.foldl_resolveEdge .interface interfaces
    (supertypes.foldl (resolveEdge .supertype) (diagram, [])).2
  exact h.resolved_of_grows hfirst.1 hfirst.2 hsecond.1 hsecond.2

end Diagram

end Diagrams.Uml
