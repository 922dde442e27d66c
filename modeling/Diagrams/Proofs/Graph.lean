/-
The names of a diagram.

The registry is a second record of which nodes a diagram shows: it is told about a name whenever a
node is added, and a name that is bound again forgets what it stood for.  `NamesLatest` says what
keeps the two records together: every name stands for the latest shown node of that name, and for
nothing where no such node is shown.  Making nodes, showing them, changing them without renaming
them and connecting them all keep it.

Numbers in a diagram mean something only below the length of the pool they count, so `InPool`
travels along.
-/
import Mathlib.Data.List.Find
import Diagrams.Graph
import Diagrams.Proofs.Registry

namespace Diagrams.Graph

variable {ν ε : Type}

/-- Everything that the diagram shows is in its pools. -/
structure InPool (graph : Graph ν ε) : Prop where
  /-- Shown nodes were made. -/
  members : ∀ node ∈ graph.members, node < graph.pool.length
  /-- Shown edges were made. -/
  edges : ∀ edge ∈ graph.edges, edge < graph.edgePool.length

/-! ### The pool -/

theorem node?_create_of_lt {graph : Graph ν ε} {node : Nat} (h : node < graph.pool.length)
    (made : ν) : (graph.create made).node? node = graph.node? node :=
  List.getElem?_append_left h

@[simp] theorem node?_create_nextNode (graph : Graph ν ε) (made : ν) :
    (graph.create made).node? graph.nextNode = some made := by
  simp [create, node?, nextNode]

theorem nextNode_lt_create (graph : Graph ν ε) (made : ν) :
    graph.nextNode < (graph.create made).pool.length := by
  simp [nextNode, create]

theorem InPool.create {graph : Graph ν ε} (h : graph.InPool) (made : ν) :
    (graph.create made).InPool := by
  refine ⟨fun node hnode => ?_, h.edges⟩
  show node < (graph.pool ++ [made]).length
  rw [List.length_append]
  exact Nat.lt_add_right _ (h.members node hnode)

theorem node?_modify (graph : Graph ν ε) (node other : Nat) (change : ν → ν) :
    (graph.modify node change).node? other
      = if node = other then (graph.node? other).map change else graph.node? other := by
  unfold node? modify
  rw [List.getElem?_modify]
  by_cases h : node = other <;> simp [h]

theorem InPool.modify {graph : Graph ν ε} (h : graph.InPool) (node : Nat) (change : ν → ν) :
    (graph.modify node change).InPool :=
  ⟨fun other hother => by
    show other < (graph.pool.modify node change).length
    rw [List.length_modify]
    exact h.members other hother, h.edges⟩

theorem foldl_connect (graph : Graph ν ε) (added : List (Edge ε)) :
    added.foldl connect graph
      = { graph with
          edgePool := graph.edgePool ++ added
          edges := graph.edges ++ List.range' graph.nextEdge added.length } := by
  induction added generalizing graph with
  | nil => simp
  | cons edge added ih =>
      have hnext : (graph.connect edge).nextEdge = graph.nextEdge + 1 := by
        simp [nextEdge, connect, createEdge, addEdge]
      rw [List.foldl_cons, ih, hnext]
      simp [connect, createEdge, addEdge, List.range'_succ]

/-- Looking all numbers up gives the whole list. -/
theorem filterMap_getElem?_range {α : Type} (items : List α) :
    (List.range items.length).filterMap (items[·]?) = items := by
  have hsome : (List.range items.length).map (items[·]?) = items.map some := by
    refine List.ext_getElem (by simp) fun index hleft hright => ?_
    have hindex : index < items.length := by simpa using hright
    simp [hindex]
  have hjoin : (List.range items.length).filterMap (items[·]?)
      = ((List.range items.length).map (items[·]?)).filterMap id := by
    rw [List.filterMap_map]
    rfl
  rw [hjoin, hsome, List.filterMap_map]
  exact List.filterMap_some

/-! ### Looking a name up -/

variable [Named ν]

/-- Every name stands for the latest shown node of that name, if there is one. -/
def NamesLatest (graph : Graph ν ε) : Prop :=
  ∀ name, graph.registry.binding? name = (graph.latestNamed? name).map some

theorem NamesLatest.lookup?_eq {graph : Graph ν ε} (h : graph.NamesLatest) (name : Text) :
    graph.lookup? name = graph.latestNamed? name := by
  unfold lookup? Registry.get?
  rw [h name]
  cases graph.latestNamed? name <;> rfl

theorem mem_of_latestNamed? {graph : Graph ν ε} {name : Text} {node : Nat}
    (h : graph.latestNamed? name = some node) :
    node ∈ graph.members ∧ graph.registry.key (graph.nameOf node) = graph.registry.key name := by
  unfold latestNamed? at h
  refine ⟨by simpa using List.mem_of_find?_eq_some h, ?_⟩
  simpa using List.find?_some h

/-- What a name stands for is shown, and its own name stands for it too. -/
theorem NamesLatest.of_lookup? {graph : Graph ν ε} (h : graph.NamesLatest) {name : Text}
    {node : Nat} (hnode : graph.lookup? name = some node) :
    node ∈ graph.members ∧ graph.lookup? (graph.nameOf node) = some node := by
  rw [h.lookup?_eq] at hnode
  obtain ⟨hmem, hkey⟩ := mem_of_latestNamed? hnode
  refine ⟨hmem, ?_⟩
  rw [h.lookup?_eq]
  unfold latestNamed? at hnode ⊢
  rw [hkey]
  exact hnode

/-! ### Making nodes and showing them -/

theorem nameOf_create_of_lt {graph : Graph ν ε} {node : Nat} (h : node < graph.pool.length)
    (made : ν) : (graph.create made).nameOf node = graph.nameOf node := by
  unfold nameOf
  rw [node?_create_of_lt h]

theorem latestNamed?_create {graph : Graph ν ε} (h : graph.InPool) (made : ν) (name : Text) :
    (graph.create made).latestNamed? name = graph.latestNamed? name := by
  unfold latestNamed?
  refine List.find?_congr fun node hnode => ?_
  rw [nameOf_create_of_lt (h.members node (List.mem_reverse.mp hnode))]
  rfl

theorem NamesLatest.create {graph : Graph ν ε} (h : graph.NamesLatest) (hin : graph.InPool)
    (made : ν) : (graph.create made).NamesLatest := by
  intro name
  rw [latestNamed?_create hin]
  exact h name

theorem InPool.add {graph : Graph ν ε} (h : graph.InPool) {node : Nat}
    (hnode : node < graph.pool.length) : (graph.add node).InPool := by
  refine ⟨fun other hother => ?_, h.edges⟩
  rcases List.mem_append.mp (show other ∈ graph.members ++ [node] from hother) with hold | hnew
  · exact h.members other hold
  · rw [List.mem_singleton.mp hnew]
    exact hnode

/-- The latest node of a name after one more node is shown: the new one if it has that name. -/
theorem latestNamed?_add (graph : Graph ν ε) (node : Nat) (name : Text) :
    (graph.add node).latestNamed? name
      = if graph.registry.key (graph.nameOf node) = graph.registry.key name
        then some node else graph.latestNamed? name := by
  show (graph.members ++ [node]).reverse.find? (fun other =>
    graph.registry.key (graph.nameOf other) = graph.registry.key name) = _
  rw [List.reverse_append, List.reverse_singleton, List.singleton_append, List.find?_cons]
  by_cases hsame : graph.registry.key (graph.nameOf node) = graph.registry.key name
  · simp [hsame]
  · simp [hsame, latestNamed?]

theorem NamesLatest.add {graph : Graph ν ε} (h : graph.NamesLatest) (node : Nat) :
    (graph.add node).NamesLatest := by
  intro name
  rw [latestNamed?_add]
  show (graph.registry.register (graph.nameOf node) (some node)).binding? name = _
  rw [Registry.binding?_register]
  by_cases hsame : graph.registry.key name = graph.registry.key (graph.nameOf node)
  · rw [if_pos hsame, if_pos hsame.symm]
    rfl
  · rw [if_neg hsame, if_neg (Ne.symm hsame)]
    exact h name

@[simp] theorem members_insert (graph : Graph ν ε) (made : ν) :
    (graph.insert made).members = graph.members ++ [graph.nextNode] := rfl

@[simp] theorem pool_insert (graph : Graph ν ε) (made : ν) :
    (graph.insert made).pool = graph.pool ++ [made] := rfl

/-- Nodes that are members in the order in which they were made stay so. -/
theorem members_insert_range {graph : Graph ν ε} (made : ν)
    (h : graph.members = List.range graph.pool.length) :
    (graph.insert made).members = List.range (graph.insert made).pool.length := by
  rw [members_insert, pool_insert, h, List.length_append, List.length_singleton, List.range_succ]
  rfl

@[simp] theorem edges_insert (graph : Graph ν ε) (made : ν) :
    (graph.insert made).edges = graph.edges := rfl

@[simp] theorem edgePool_insert (graph : Graph ν ε) (made : ν) :
    (graph.insert made).edgePool = graph.edgePool := rfl

theorem node?_insert (graph : Graph ν ε) (made : ν) (node : Nat) :
    (graph.insert made).node? node
      = if node = graph.nextNode then some made else graph.node? node := by
  show (graph.pool ++ [made])[node]? = _
  by_cases hnext : node = graph.nextNode
  · rw [if_pos hnext, hnext]
    exact List.getElem?_concat_length
  · rw [if_neg hnext, List.getElem?_append]
    by_cases hlt : node < graph.pool.length
    · rw [if_pos hlt]
      rfl
    · have hbeyond : node - graph.pool.length ≠ 0 := by
        have hne : node ≠ graph.pool.length := hnext
        omega
      rw [if_neg hlt, List.getElem?_singleton, if_neg hbeyond]
      exact (List.getElem?_eq_none (Nat.not_lt.mp hlt)).symm

theorem nameOf_insert (graph : Graph ν ε) (made : ν) (node : Nat) :
    (graph.insert made).nameOf node = (graph.create made).nameOf node := rfl

theorem registry_insert (graph : Graph ν ε) (made : ν) :
    (graph.insert made).registry
      = graph.registry.register (Named.name made) (some graph.nextNode) := by
  show graph.registry.register ((graph.create made).nameOf graph.nextNode) _ = _
  simp [nameOf]

theorem InPool.insert {graph : Graph ν ε} (h : graph.InPool) (made : ν) :
    (graph.insert made).InPool :=
  (h.create made).add (nextNode_lt_create graph made)

theorem NamesLatest.insert {graph : Graph ν ε} (h : graph.NamesLatest) (hin : graph.InPool)
    (made : ν) : (graph.insert made).NamesLatest :=
  (h.create hin made).add graph.nextNode

theorem lookup?_insert (graph : Graph ν ε) (made : ν) (name : Text) :
    (graph.insert made).lookup? name
      = if graph.registry.key name = graph.registry.key (Named.name made)
        then some graph.nextNode else graph.lookup? name := by
  unfold lookup? Registry.get?
  rw [registry_insert, Registry.binding?_register]
  by_cases hsame : graph.registry.key name = graph.registry.key (Named.name made)
  · rw [if_pos hsame, if_pos hsame]
    rfl
  · rw [if_neg hsame, if_neg hsame]

theorem lookup?_insert_self (graph : Graph ν ε) (made : ν) :
    (graph.insert made).lookup? (Named.name made) = some graph.nextNode := by
  rw [lookup?_insert, if_pos rfl]

theorem nameOf_insert_self (graph : Graph ν ε) (made : ν) :
    (graph.insert made).nameOf graph.nextNode = Named.name made := by
  rw [nameOf, node?_insert, if_pos rfl]
  rfl

/-- A node that is changed right after it was shown might have been shown so. -/
theorem modify_insert (graph : Graph ν ε) (made : ν) {change : ν → ν}
    (h : Named.name (change made) = Named.name made) :
    (graph.insert made).modify graph.nextNode change = graph.insert (change made) := by
  have hlast : ∀ nodes : List ν,
      (nodes ++ [made]).modify nodes.length change = nodes ++ [change made] := by
    intro nodes
    induction nodes with
    | nil => rfl
    | cons node nodes ih => exact congrArg (node :: ·) ih
  have hregistry : (graph.insert made).registry = (graph.insert (change made)).registry := by
    rw [registry_insert, registry_insert, h]
  have hparts : (graph.insert made).modify graph.nextNode change
      = { graph.insert (change made) with
          pool := (graph.pool ++ [made]).modify graph.pool.length change
          registry := (graph.insert made).registry } := rfl
  rw [hparts, hlast, hregistry]
  rfl

/-! ### Showing many nodes -/

theorem pool_foldl_insert (graph : Graph ν ε) (items : List ν) :
    (items.foldl insert graph).pool = graph.pool ++ items := by
  induction items generalizing graph with
  | nil => simp
  | cons item items ih => rw [List.foldl_cons, ih, pool_insert, List.append_assoc]; rfl

/-- Showing nodes leaves the title and the edges. -/
theorem frame_foldl_insert (graph : Graph ν ε) (items : List ν) :
    (items.foldl insert graph).title = graph.title ∧
      (items.foldl insert graph).edges = graph.edges ∧
      (items.foldl insert graph).edgePool = graph.edgePool := by
  induction items generalizing graph with
  | nil => exact ⟨rfl, rfl, rfl⟩
  | cons item items ih => exact ih (graph.insert item)

theorem members_foldl_insert (graph : Graph ν ε) (items : List ν) :
    (items.foldl insert graph).members
      = graph.members ++ List.range' graph.nextNode items.length := by
  induction items generalizing graph with
  | nil => simp
  | cons item items ih =>
      have hnext : (graph.insert item).nextNode = graph.nextNode + 1 := by
        simp [nextNode]
      rw [List.foldl_cons, ih, members_insert, hnext, List.append_assoc]
      rfl

/-- After nodes of different names are shown, each name stands for the node that has it. -/
theorem lookup?_foldl_insert (graph : Graph ν ε) {items : List ν}
    (h : (items.map fun item => graph.registry.key (Named.name item)).Nodup) (name : Text) :
    (items.foldl insert graph).lookup? name
      = ((items.findIdx? fun item =>
            graph.registry.key (Named.name item) = graph.registry.key name).map
          (graph.nextNode + ·)).or (graph.lookup? name) := by
  induction items generalizing graph with
  | nil => simp
  | cons item items ih =>
      obtain ⟨hfresh, hrest⟩ := List.nodup_cons.mp h
      have hkey : ∀ other, (graph.insert item).registry.key other = graph.registry.key other := by
        intro other
        rw [registry_insert, Registry.key_register]
      have hnext : (graph.insert item).nextNode = graph.nextNode + 1 := by
        simp [nextNode]
      rw [List.foldl_cons, ih _ (by simpa only [hkey] using hrest), lookup?_insert,
        List.findIdx?_cons]
      simp only [hkey, hnext]
      by_cases hsame : graph.registry.key (Named.name item) = graph.registry.key name
      · have hnone : (items.findIdx? fun other =>
            decide (graph.registry.key (Named.name other) = graph.registry.key name)) = none := by
          rw [List.findIdx?_eq_none_iff]
          intro other hother
          rw [decide_eq_false_iff_not]
          exact fun heq => hfresh (List.mem_map.mpr ⟨other, hother, heq.trans hsame.symm⟩)
        simp [hsame, hnone]
      · rw [if_neg (Ne.symm hsame), if_neg (by simpa using hsame), Option.map_map]
        congr 2
        funext index
        rw [Function.comp_apply]
        omega

/-! ### Changing nodes in the pool -/

/-- A change that keeps the name of a node keeps the names of all. -/
theorem nameOf_modify {change : ν → ν} (h : ∀ made, Named.name (change made) = Named.name made)
    (graph : Graph ν ε) (node other : Nat) :
    (graph.modify node change).nameOf other = graph.nameOf other := by
  unfold nameOf
  rw [node?_modify]
  by_cases hsame : node = other
  · rw [if_pos hsame, Option.map_map]
    congr 2
    exact funext h
  · rw [if_neg hsame]

theorem NamesLatest.modify {graph : Graph ν ε} (h : graph.NamesLatest) {change : ν → ν}
    (hname : ∀ made, Named.name (change made) = Named.name made) (node : Nat) :
    (graph.modify node change).NamesLatest := by
  intro name
  have hlatest : (graph.modify node change).latestNamed? name = graph.latestNamed? name := by
    unfold latestNamed?
    simp only [nameOf_modify hname]
    rfl
  rw [hlatest]
  exact h name

end Diagrams.Graph
