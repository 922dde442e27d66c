/-
Diagrams that are changed step by step.

Whoever holds a diagram may make nodes and edges, show them, stop showing them and change them, in
any order.  `Step` lists what can be done, with the two rules that have to be observed: an edge is
shown only between nodes that are shown, and a shown node keeps its name.  `Consistent` is what each
step keeps: names stand for the latest shown node of that name, and shown edges end at shown nodes.

The step that needs an argument is `remove`.  Taking a node away leaves every name as it was, unless
the name stood for that very node; then the name is free, and `rebind` gives it to the latest node
that is left.  A node may be shown twice, and then it may itself be the one that is left.
-/
import Diagrams.Proofs.Graph

namespace Diagrams.Graph

variable {ν ε : Type}

/-- The names and edges of a diagram fit the nodes that it shows. -/
structure Consistent [Named ν] (graph : Graph ν ε) : Prop where
  /-- What is shown was made. -/
  inPool : graph.InPool
  /-- Every name stands for the latest shown node of that name. -/
  names : graph.NamesLatest
  /-- Shown edges end at shown nodes. -/
  ends : ∀ number ∈ graph.edges, ∃ edge, graph.edge? number = some edge ∧
    edge.source ∈ graph.members ∧ edge.target ∈ graph.members

/-- What can be done to a diagram. -/
inductive Step [Named ν] : Graph ν ε → Graph ν ε → Prop
  /-- Make a node. -/
  | create (graph : Graph ν ε) (made : ν) : Step graph (graph.create made)
  /-- Change a node; a shown one keeps its name. -/
  | modify (graph : Graph ν ε) (node : Nat) (change : ν → ν)
      (keeps : node ∈ graph.members →
        ∀ made, graph.node? node = some made → Named.name (change made) = Named.name made) :
      Step graph (graph.modify node change)
  /-- Show a node. -/
  | add (graph : Graph ν ε) (node : Nat) (made : node < graph.pool.length) :
      Step graph (graph.add node)
  /-- Stop showing a node, whether it is shown or not. -/
  | remove (graph : Graph ν ε) (node : Nat) : Step graph (graph.remove node)
  /-- Make an edge. -/
  | createEdge (graph : Graph ν ε) (edge : Edge ε) : Step graph (graph.createEdge edge)
  /-- Show an edge between shown nodes. -/
  | addEdge (graph : Graph ν ε) (number : Nat) (edge : Edge ε)
      (made : graph.edge? number = some edge) (source : edge.source ∈ graph.members)
      (target : edge.target ∈ graph.members) : Step graph (graph.addEdge number)
  /-- Stop showing an edge, whether it is shown or not. -/
  | removeEdge (graph : Graph ν ε) (number : Nat) : Step graph (graph.removeEdge number)
  /-- Show nothing any more. -/
  | clear (graph : Graph ν ε) : Step graph graph.clear

/-! ### Taking a node away -/

/-- The last element that passes a test is still the last one after another element is erased. -/
theorem find?_reverse_erase {items : List Nat} {p : Nat → Bool} {item : Nat}
    (h : items.reverse.find? p ≠ some item) :
    (items.erase item).reverse.find? p = items.reverse.find? p := by
  cases hlast : items.reverse.find? p with
  | none =>
      rw [List.find?_eq_none] at hlast ⊢
      intro other hother
      exact hlast other (List.mem_reverse.mpr (List.mem_of_mem_erase (List.mem_reverse.mp hother)))
  | some last =>
      have hne : last ≠ item := fun heq => h (heq ▸ hlast)
      obtain ⟨hp, after, before, heq, hafter⟩ := List.find?_eq_some_iff_append.mp hlast
      have hitems : items = before.reverse ++ last :: after.reverse := by
        simpa using congrArg List.reverse heq
      have herase : ∃ front behind, items.erase item = front ++ last :: behind ∧
          ∀ other ∈ behind, other ∈ after := by
        by_cases hmem : item ∈ before.reverse
        · refine ⟨before.reverse.erase item, after.reverse, ?_, by simp⟩
          rw [hitems, List.erase_append_left _ hmem]
        · refine ⟨before.reverse, after.reverse.erase item, ?_, ?_⟩
          · rw [hitems, List.erase_append_right _ hmem, List.erase_cons_tail (by simpa using hne)]
          · exact fun other hother => List.mem_reverse.mp (List.mem_of_mem_erase hother)
      obtain ⟨front, behind, hfront, hbehind⟩ := herase
      rw [hfront, List.find?_eq_some_iff_append]
      refine ⟨hp, behind.reverse, front.reverse, by simp, ?_⟩
      exact fun other hother => hafter other (hbehind other (List.mem_reverse.mp hother))

section

variable [Named ν]

/-- The diagram without a node and its edges; if a name stood for the node, it is free. -/
def hide (graph : Graph ν ε) (node : Nat) : Graph ν ε :=
  { graph with
    members := graph.members.erase node
    edges := graph.edges.filter fun edge => !(graph.edge? edge).any (·.involves node)
    registry := graph.registry.unregister (graph.nameOf node) (some node) }

/-- The diagram where a name that is free stands for the latest shown node of that name. -/
def rebind (graph : Graph ν ε) (name : Text) : Graph ν ε :=
  if graph.has name then graph
  else match graph.latestNamed? name with
    | some other =>
      { graph with registry := graph.registry.register (graph.nameOf other) (some other) }
    | none => graph

theorem remove_of_mem {graph : Graph ν ε} {node : Nat} (h : node ∈ graph.members) :
    graph.remove node = (graph.hide node).rebind (graph.nameOf node) := by
  unfold remove
  rw [if_pos (by simpa using h)]
  rfl

theorem remove_of_not_mem {graph : Graph ν ε} {node : Nat} (h : node ∉ graph.members) :
    graph.remove node = graph := by
  unfold remove
  rw [if_neg (by simpa using h)]

/-- Rebinding a name changes nothing but the registry. -/
theorem rebind_eq (graph : Graph ν ε) (name : Text) :
    graph.rebind name = { graph with registry := (graph.rebind name).registry } := by
  unfold rebind
  split
  · rfl
  · split <;> rfl

theorem key_rebind (graph : Graph ν ε) (name other : Text) :
    (graph.rebind name).registry.key other = graph.registry.key other := by
  unfold rebind
  split
  · rfl
  · split <;> rfl

theorem latestNamed?_rebind (graph : Graph ν ε) (name other : Text) :
    (graph.rebind name).latestNamed? other = graph.latestNamed? other := by
  have hmembers : (graph.rebind name).members = graph.members := by rw [rebind_eq]
  have hnameOf : ∀ node, (graph.rebind name).nameOf node = graph.nameOf node := by
    intro node
    rw [rebind_eq]
    rfl
  unfold latestNamed?
  simp only [hmembers, hnameOf, key_rebind]

theorem latestNamed?_congr (graph : Graph ν ε) {name other : Text}
    (h : graph.registry.key name = graph.registry.key other) :
    graph.latestNamed? name = graph.latestNamed? other := by
  unfold latestNamed?
  rw [h]

/-- If at most one name is in want of a node, rebinding it puts all names in order. -/
theorem namesLatest_rebind {graph : Graph ν ε} {name : Text}
    (hothers : ∀ other, graph.registry.key other ≠ graph.registry.key name →
      graph.registry.binding? other = (graph.latestNamed? other).map some)
    (hname : graph.registry.binding? name = none ∨
      graph.registry.binding? name = (graph.latestNamed? name).map some) :
    (graph.rebind name).NamesLatest := by
  -- A name with the same key is bound to the same node and has the same latest node.
  have hsame : ∀ other, graph.registry.key other = graph.registry.key name →
      graph.registry.binding? other = graph.registry.binding? name ∧
        graph.latestNamed? other = graph.latestNamed? name := by
    intro other hkey
    refine ⟨?_, graph.latestNamed?_congr hkey⟩
    unfold Registry.binding?
    rw [hkey]
  intro other
  rw [latestNamed?_rebind]
  unfold rebind
  by_cases hhas : graph.has name = true
  · rw [if_pos hhas]
    by_cases hkey : graph.registry.key other = graph.registry.key name
    · rw [(hsame other hkey).1, (hsame other hkey).2]
      refine hname.resolve_left fun hnone => ?_
      have hfree : graph.has name = false := by
        show (graph.registry.binding? name).isSome = false
        rw [hnone]
        rfl
      exact Bool.noConfusion (hhas.symm.trans hfree)
    · exact hothers other hkey
  · rw [if_neg hhas]
    have hfree : graph.registry.binding? name = none := Option.not_isSome_iff_eq_none.mp hhas
    cases hlatest : graph.latestNamed? name with
    | none =>
        by_cases hkey : graph.registry.key other = graph.registry.key name
        · rw [(hsame other hkey).1, (hsame other hkey).2, hlatest, hfree]
          rfl
        · exact hothers other hkey
    | some node =>
        have hnode := (mem_of_latestNamed? hlatest).2
        show (graph.registry.register (graph.nameOf node) (some node)).binding? other = _
        rw [Registry.binding?_register, hnode]
        by_cases hkey : graph.registry.key other = graph.registry.key name
        · rw [if_pos hkey, (hsame other hkey).2, hlatest]
          rfl
        · rw [if_neg hkey]
          exact hothers other hkey

theorem latestNamed?_hide {graph : Graph ν ε} {node : Nat} {name : Text}
    (h : graph.latestNamed? name ≠ some node) :
    (graph.hide node).latestNamed? name = graph.latestNamed? name := by
  have hkey : ∀ other, (graph.hide node).registry.key other = graph.registry.key other :=
    fun other => Registry.key_unregister ..
  unfold latestNamed?
  simp only [hkey]
  exact find?_reverse_erase h

theorem NamesLatest.remove {graph : Graph ν ε} (h : graph.NamesLatest) (node : Nat) :
    (graph.remove node).NamesLatest := by
  by_cases hmem : node ∈ graph.members
  · have hkey : ∀ other, (graph.hide node).registry.key other = graph.registry.key other :=
      fun other => Registry.key_unregister ..
    have hbinding : ∀ other, (graph.hide node).registry.binding? other = _ :=
      fun other => Registry.binding?_unregister graph.registry (graph.nameOf node) other node
    rw [remove_of_mem hmem]
    refine namesLatest_rebind (fun other hother => ?_) ?_
    · rw [hkey, hkey] at hother
      rw [hbinding, if_neg (fun hboth => hother hboth.1), latestNamed?_hide, h other]
      exact fun hlatest => hother (mem_of_latestNamed? hlatest).2.symm
    · rw [hbinding, h (graph.nameOf node)]
      by_cases hlatest : graph.latestNamed? (graph.nameOf node) = some node
      · left
        rw [if_pos ⟨rfl, by rw [hlatest]; rfl⟩]
      · right
        rw [if_neg, latestNamed?_hide hlatest]
        rintro ⟨-, hsome⟩
        obtain ⟨last, hlast, heq⟩ := Option.map_eq_some_iff.mp hsome
        exact hlatest (hlast.trans heq)
  · rw [remove_of_not_mem hmem]
    exact h

/-! ### Every step keeps a diagram consistent -/

namespace Consistent

variable {graph : Graph ν ε}

theorem empty {graph : Graph ν ε} (hmembers : graph.members = []) (hedges : graph.edges = [])
    (hregistry : graph.registry.bindings = []) : graph.Consistent := by
  refine ⟨⟨?_, ?_⟩, fun name => ?_, ?_⟩
  · simp [hmembers]
  · simp [hedges]
  · simp [Registry.binding?, latestNamed?, hmembers, hregistry]
  · simp [hedges]

theorem create (h : graph.Consistent) (made : ν) : (graph.create made).Consistent :=
  ⟨h.inPool.create made, h.names.create h.inPool made, h.ends⟩

theorem modify (h : graph.Consistent) {node : Nat} {change : ν → ν}
    (hkeeps : node ∈ graph.members →
      ∀ made, graph.node? node = some made → Named.name (change made) = Named.name made) :
    (graph.modify node change).Consistent := by
  have hnameOf : ∀ other ∈ graph.members,
      (graph.modify node change).nameOf other = graph.nameOf other := by
    intro other hother
    unfold nameOf
    rw [node?_modify]
    by_cases hsame : node = other
    · rw [if_pos hsame]
      cases hmade : graph.node? other with
      | none => rfl
      | some made => exact hkeeps (hsame ▸ hother) made (hsame ▸ hmade)
    · rw [if_neg hsame]
  refine ⟨h.inPool.modify node change, fun name => ?_, h.ends⟩
  have hlatest : (graph.modify node change).latestNamed? name = graph.latestNamed? name := by
    unfold latestNamed?
    refine List.find?_congr fun other hother => ?_
    rw [hnameOf other (List.mem_reverse.mp hother)]
    rfl
  rw [hlatest]
  exact h.names name

theorem add (h : graph.Consistent) {node : Nat} (hnode : node < graph.pool.length) :
    (graph.add node).Consistent := by
  refine ⟨h.inPool.add hnode, h.names.add node, fun number hnumber => ?_⟩
  obtain ⟨edge, hedge, hsource, htarget⟩ := h.ends number hnumber
  exact ⟨edge, hedge, List.mem_append_left _ hsource, List.mem_append_left _ htarget⟩

theorem insert (h : graph.Consistent) (made : ν) : (graph.insert made).Consistent :=
  (h.create made).add (nextNode_lt_create graph made)

theorem remove (h : graph.Consistent) (node : Nat) : (graph.remove node).Consistent := by
  refine ⟨?_, h.names.remove node, ?_⟩ <;> by_cases hmem : node ∈ graph.members
  · rw [remove_of_mem hmem, rebind_eq]
    exact ⟨fun other hother => h.inPool.members other (List.mem_of_mem_erase hother),
      fun number hnumber => h.inPool.edges number (List.mem_filter.mp hnumber).1⟩
  · rw [remove_of_not_mem hmem]
    exact h.inPool
  · -- An edge that is still shown does not end at the node.
    rw [remove_of_mem hmem, rebind_eq]
    intro number hnumber
    obtain ⟨hshown, hkept⟩ := List.mem_filter.mp hnumber
    obtain ⟨edge, hedge, hsource, htarget⟩ := h.ends number hshown
    have haway : edge.source ≠ node ∧ edge.target ≠ node := by
      simpa [hedge, Edge.involves] using hkept
    exact ⟨edge, hedge, (List.mem_erase_of_ne haway.1).mpr hsource,
      (List.mem_erase_of_ne haway.2).mpr htarget⟩
  · rw [remove_of_not_mem hmem]
    exact h.ends

theorem createEdge (h : graph.Consistent) (edge : Edge ε) : (graph.createEdge edge).Consistent := by
  refine ⟨⟨h.inPool.members, fun number hnumber => ?_⟩, h.names, fun number hnumber => ?_⟩
  · show number < (graph.edgePool ++ [edge]).length
    rw [List.length_append]
    exact Nat.lt_add_right _ (h.inPool.edges number hnumber)
  · obtain ⟨found, hfound, hends⟩ := h.ends number hnumber
    exact ⟨found, (List.getElem?_append_left (h.inPool.edges number hnumber)).trans hfound, hends⟩

theorem addEdge (h : graph.Consistent) {number : Nat} {edge : Edge ε}
    (hedge : graph.edge? number = some edge) (hsource : edge.source ∈ graph.members)
    (htarget : edge.target ∈ graph.members) : (graph.addEdge number).Consistent := by
  have hshown : ∀ other ∈ (graph.addEdge number).edges, other ∈ graph.edges ∨ other = number := by
    intro other hother
    simpa using List.mem_append.mp hother
  refine ⟨⟨h.inPool.members, fun other hother => ?_⟩, h.names, fun other hother => ?_⟩
  · rcases hshown other hother with hold | rfl
    · exact h.inPool.edges other hold
    · exact (List.getElem?_eq_some_iff.mp hedge).1
  · rcases hshown other hother with hold | rfl
    · exact h.ends other hold
    · exact ⟨edge, hedge, hsource, htarget⟩

theorem connect (h : graph.Consistent) {edge : Edge ε} (hsource : edge.source ∈ graph.members)
    (htarget : edge.target ∈ graph.members) : (graph.connect edge).Consistent := by
  have hmade : (graph.createEdge edge).edge? graph.nextEdge = some edge := by
    show (graph.edgePool ++ [edge])[graph.edgePool.length]? = some edge
    simp
  exact (h.createEdge edge).addEdge hmade hsource htarget

/-- Connecting nodes that are all shown, one pair after the other. -/
theorem foldl_connect (h : graph.Consistent) {added : List (Edge ε)}
    (hadded : ∀ edge ∈ added, edge.source ∈ graph.members ∧ edge.target ∈ graph.members) :
    (added.foldl Graph.connect graph).Consistent := by
  refine (List.foldlRecOn (motive := fun connected : Graph ν ε =>
    connected.Consistent ∧ connected.members = graph.members) added _ ⟨h, rfl⟩ ?_).1
  rintro connected ⟨hconsistent, hmembers⟩ edge hedge
  obtain ⟨hsource, htarget⟩ := hadded edge hedge
  exact ⟨hconsistent.connect (hmembers ▸ hsource) (hmembers ▸ htarget), hmembers⟩

theorem removeEdge (h : graph.Consistent) (number : Nat) : (graph.removeEdge number).Consistent :=
  ⟨⟨h.inPool.members, fun other hother => h.inPool.edges other (List.mem_of_mem_erase hother)⟩,
    h.names, fun other hother => h.ends other (List.mem_of_mem_erase hother)⟩

theorem clear (graph : Graph ν ε) : graph.clear.Consistent := empty rfl rfl rfl

/-- Whatever is done to a diagram, it stays consistent. -/
theorem step (h : graph.Consistent) {next : Graph ν ε} (hstep : Step graph next) :
    next.Consistent := by
  cases hstep with
  | create made => exact h.create made
  | modify node change keeps => exact h.modify keeps
  | add node made => exact h.add made
  | remove node => exact h.remove node
  | createEdge edge => exact h.createEdge edge
  | addEdge number edge made source target => exact h.addEdge made source target
  | removeEdge number => exact h.removeEdge number
  | clear => exact clear graph

end Consistent

theorem Step.key_eq {graph next : Graph ν ε} (h : Step graph next) (name : Text) :
    next.registry.key name = graph.registry.key name := by
  cases h with
  | remove node =>
      by_cases hmem : node ∈ graph.members
      · rw [remove_of_mem hmem, key_rebind]
        exact Registry.key_unregister ..
      · rw [remove_of_not_mem hmem]
  | create | modify | add | createEdge | addEdge | removeEdge | clear => rfl

/-! ### What the holder of a diagram can rely on -/

/-- The names and edges of a diagram, told by the list of the nodes that it shows.  Two names count
as the same if they have the same `key`. -/
structure Faithful (key : Text → Text) (graph : Graph ν ε) : Prop where
  /-- Every shown node was made. -/
  made : ∀ node ∈ graph.members, ∃ made, graph.node? node = some made
  /-- A name stands for the last of the shown nodes with that name. -/
  lookup : ∀ name, graph.lookup? name
    = (graph.members.filter fun node => key (graph.nameOf node) = key name).getLast?
  /-- A name stands for nothing exactly if no shown node has it. -/
  unknown : ∀ name, graph.lookup? name = none ↔
    ∀ node ∈ graph.members, key (graph.nameOf node) ≠ key name
  /-- A name is bound exactly if a shown node has it. -/
  bound : ∀ name, graph.has name = true ↔
    ∃ node ∈ graph.members, key (graph.nameOf node) = key name
  /-- Both ends of every shown edge are shown. -/
  ends : ∀ number ∈ graph.edges, ∃ edge, graph.edge? number = some edge ∧
    edge.source ∈ graph.members ∧ edge.target ∈ graph.members

theorem Consistent.faithful {graph : Graph ν ε} (h : graph.Consistent) {key : Text → Text}
    (hkey : ∀ name, graph.registry.key name = key name) : graph.Faithful key := by
  have hlookup : ∀ name, graph.lookup? name
      = (graph.members.filter fun node => key (graph.nameOf node) = key name).getLast? := by
    intro name
    rw [h.names.lookup?_eq, latestNamed?, ← List.head?_filter, List.filter_reverse,
      List.head?_reverse]
    simp only [hkey]
  refine ⟨fun node hnode => ?_, hlookup, fun name => ?_, fun name => ?_, h.ends⟩
  · exact ⟨_, List.getElem?_eq_getElem (h.inPool.members node hnode)⟩
  · rw [hlookup name, List.getLast?_eq_none_iff, List.filter_eq_nil_iff]
    simp
  · show (graph.registry.binding? name).isSome = true ↔ _
    rw [h.names name, Option.isSome_map, latestNamed?, List.isSome_find?, List.any_reverse,
      List.any_eq_true]
    simp only [hkey, decide_eq_true_eq]

end

end Diagrams.Graph
