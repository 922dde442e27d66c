/-
Types that are known by their places.

As long as all types have different names, a name stands for the place of its type among all of
them, and a name that is asked for and missing gets the next place.  So the diagram that edges are
resolved in can be told from a list of names (`Numbered`): the stubs are the new names among the
targets, in the order in which they are first asked for, and each edge leads from place to place.
-/
import Diagrams.Proofs.Uml.Additions
import Diagrams.Proofs.Uml.Resolved

namespace Diagrams.Uml

namespace Diagram

/-- Every type is shown in the order in which it was made, and its name stands for its place. -/
structure Numbered (names : List Text) (diagram : Diagram) : Prop where
  /-- Names regard case. -/
  key : ∀ name, diagram.registry.key name = name
  members : diagram.members = List.range diagram.pool.length
  edges : diagram.edges = List.range diagram.edgePool.length
  pool : diagram.pool.map Class.name = names
  lookup : ∀ name, diagram.lookup? name = if name ∈ names then some (names.idxOf name) else none

/-- The edge between the places of two names. -/
def edgeBetween (names : List Text) (role : Role) (edge : TypeEdge) : Edge Relationship :=
  { source := names.idxOf edge.source, target := names.idxOf edge.target
    label := { kind := role.relationshipKind } }

namespace Numbered

variable {names : List Text} {diagram : Diagram}

theorem length (h : Numbered names diagram) : diagram.pool.length = names.length := by
  rw [← h.pool, List.length_map]

/-- A type of a new name gets the next place. -/
theorem insert (h : Numbered names diagram) {type : Class} (hname : type.name ∉ names) :
    Numbered (names ++ [type.name]) (Graph.insert diagram type) := by
  refine ⟨h.key, Graph.members_insert_range type h.members, h.edges, ?_, fun other => ?_⟩
  · rw [Graph.pool_insert, List.map_append, h.pool]
    rfl
  · rw [Graph.lookup?_insert, h.key, h.key, h.lookup]
    show (if other = type.name then some diagram.pool.length else _) = _
    by_cases hsame : other = type.name
    · subst hsame
      rw [if_pos rfl, if_pos (by simp), List.idxOf_append_of_notMem hname, h.length]
      simp
    · rw [if_neg hsame]
      by_cases hmem : other ∈ names
      · rw [if_pos hmem, if_pos (List.mem_append_left _ hmem), List.idxOf_append_of_mem hmem]
      · rw [if_neg hmem, if_neg (by simp [hmem, hsame])]

/-- Types of different names get their places one after the other. -/
theorem foldl_insert (h : Numbered names diagram) {types : List Class}
    (hnames : (names ++ types.map Class.name).Nodup) :
    Numbered (names ++ types.map Class.name) (types.foldl Graph.insert diagram) := by
  induction types generalizing names diagram with
  | nil => simpa using h
  | cons type types ih =>
      rw [List.map_cons, List.append_cons] at hnames ⊢
      have hname : type.name ∉ names := fun hmem =>
        List.disjoint_of_nodup_append (List.nodup_append.mp hnames).1 hmem
          (List.mem_singleton_self _)
      exact ih (h.insert hname) hnames

/-- What a type holds beside its name makes no difference. -/
theorem refill (h : Numbered names diagram) {pool : List Class}
    (hpool : pool.map Class.name = names) :
    Numbered names { diagram with pool } := by
  have hlength : pool.length = diagram.pool.length := by rw [h.length, ← hpool, List.length_map]
  refine ⟨h.key, ?_, h.edges, hpool, h.lookup⟩
  show diagram.members = List.range pool.length
  rw [hlength]
  exact h.members

theorem knows (h : Numbered names diagram) : Knows names diagram where
  key := h.key
  known := fun name => by
    rw [h.lookup]
    by_cases hmem : name ∈ names <;> simp [hmem]

/-- Stubs that are added get the next places. -/
theorem adds (h : Numbered names diagram) {next : Diagram} {stubs : List Class}
    {pending : List (Role × TypeEdge)} (hadds : Adds diagram next stubs pending) :
    Numbered (names ++ stubs.map Class.name) next := by
  obtain ⟨made, hedgePool, hedges, -⟩ := hadds.edges
  refine ⟨fun name => (hadds.key name).trans (h.key name), ?_, ?_, ?_, fun name => ?_⟩
  · rw [hadds.members, hadds.pool, h.members, List.length_append, List.range_eq_range',
      List.range_eq_range', ← List.range'_append_1, Nat.zero_add, Graph.nextNode]
  · rw [hedges, hedgePool, h.edges, List.length_append, List.range_eq_range', List.range_eq_range',
      ← List.range'_append_1, Nat.zero_add, Graph.nextEdge]
  · rw [hadds.pool, List.map_append, h.pool]
  · rw [hadds.lookup, h.lookup]
    by_cases hmem : name ∈ names
    · rw [if_pos hmem, if_pos (List.mem_append_left _ hmem), List.idxOf_append_of_mem hmem,
        Option.some_or]
    · rw [if_neg hmem, Option.none_or]
      by_cases hstub : name ∈ stubs.map Class.name
      · obtain ⟨place, hplace⟩ := Option.isSome_iff_exists.mp (List.isSome_idxOf?.mpr hstub)
        have hidx : (stubs.map Class.name).idxOf name = place := by
          rw [List.idxOf_eq_getD_idxOf?, hplace, Option.getD_some]
        rw [if_pos (List.mem_append_right _ hstub), List.idxOf_append_of_notMem hmem, hidx, hplace,
          Option.map_some, Graph.nextNode, h.length]
      · have hnone : (stubs.map Class.name).idxOf? name = none := List.idxOf?_eq_none_iff.mpr hstub
        rw [if_neg (by simp [hmem, hstub]), hnone, Option.map_none]

/-- An edge that is called for is the one between the places of its ends. -/
theorem eq_edgeBetween (h : Numbered names diagram) {pending : Role × TypeEdge}
    {edge : Edge Relationship} (hjoin : diagram.Joins pending edge) :
    edge = edgeBetween names pending.1 pending.2 := by
  have hplace : ∀ {name : Text} {node : Nat}, diagram.lookup? name = some node →
      node = names.idxOf name := by
    intro name node hnode
    rw [h.lookup] at hnode
    by_cases hmem : name ∈ names
    · exact (Option.some.inj ((if_pos hmem).symm.trans hnode)).symm
    · exact absurd ((if_neg hmem).symm.trans hnode) (by simp)
  obtain ⟨source, target, label⟩ := edge
  obtain ⟨hsource, htarget, rfl⟩ := hjoin
  rw [edgeBetween, ← hplace hsource, ← hplace htarget]

/-- Resolving supertypes and then interfaces. -/
theorem resolveTypeEdges (h : Numbered names diagram) {supertypes interfaces : List TypeEdge}
    (hsupertypes : ∀ edge ∈ supertypes, edge.source ∈ names)
    (hinterfaces : ∀ edge ∈ interfaces, edge.source ∈ names) {missing missing' all : List Text}
    (hmissing : newNames names (supertypes.map TypeEdge.target) = missing)
    (hmissing' : newNames (names ++ missing) (interfaces.map TypeEdge.target) = missing')
    (hall : names ++ (missing ++ missing') = all) :
    Numbered all (diagram.resolveTypeEdges supertypes interfaces).1 ∧
      (diagram.resolveTypeEdges supertypes interfaces).1.title = diagram.title ∧
      (diagram.resolveTypeEdges supertypes interfaces).1.pool
        = diagram.pool ++ (missing.map (.stub · .ordinary) ++ missing'.map (.stub · .interface)) ∧
      (diagram.resolveTypeEdges supertypes interfaces).1.edgePool
        = diagram.edgePool ++ (supertypes.map (edgeBetween all .supertype) ++
          interfaces.map (edgeBetween all .interface)) := by
  have hadds := adds_resolveTypeEdges h.knows hsupertypes hinterfaces
  rw [missingStubs_eq, hmissing, hmissing'] at hadds
  have hnext : Numbered all (diagram.resolveTypeEdges supertypes interfaces).1 := by
    have hnumbered := h.adds hadds
    simpa [Function.comp_def, Class.stub, hall] using hnumbered
  refine ⟨hnext, hadds.title, hadds.pool, ?_⟩
  obtain ⟨made, hedgePool, -, hjoins⟩ := hadds.edges
  have hmade : (pendingEdges supertypes interfaces).map
      (fun pending => edgeBetween all pending.1 pending.2) = made := by
    rw [← List.forall₂_eq_eq_eq, List.forall₂_map_left_iff]
    exact hjoins.imp fun _ _ hjoin => (hnext.eq_edgeBetween hjoin).symm
  rw [hedgePool, ← hmade, pendingEdges, List.map_append, List.map_map, List.map_map]
  rfl

end Numbered

/-! ### Compositions -/

/-- What is told of each number below the length of a list and of the item there, is told of
the items with their numbers. -/
theorem flatMap_range_length {α β : Type} (items : List α) (f : Nat → Option α → List β) :
    (List.range items.length).flatMap (fun number => f number items[number]?)
      = items.zipIdx.flatMap fun item => f item.2 (some item.1) := by
  have hnumbers : List.range items.length = items.zipIdx.map Prod.snd := by
    rw [List.zipIdx_map_snd, List.range_eq_range']
  rw [hnumbers, List.flatMap_map]
  refine List.flatMap_congr fun item hitem => ?_
  rw [List.mem_zipIdx_iff_getElem?.mp hitem]

theorem Numbered.compositions_eq {names : List Text} {diagram : Diagram}
    (h : Numbered names diagram) :
    diagram.compositions = diagram.pool.zipIdx.flatMap fun item =>
      item.1.fields.filterMap fun field =>
        if !isCommonType field.type && names.contains field.type then
          some
            { source := item.2, target := names.idxOf field.type
              label := { kind := .composition, targetLabel := some ['1'] } }
        else none := by
  have hfield : ∀ number field, diagram.compositionOf? number field
      = if !isCommonType field.type && names.contains field.type then
          some
            { source := number, target := names.idxOf field.type
              label := { kind := .composition, targetLabel := some ['1'] } }
        else none := by
    intro number field
    rw [compositionOf?, h.lookup]
    cases isCommonType field.type <;> by_cases hmem : field.type ∈ names <;> simp [hmem]
  unfold compositions
  rw [h.members]
  refine (flatMap_range_length diagram.pool fun number type? =>
    ((type?.map (·.fields)).getD []).filterMap (diagram.compositionOf? number)).trans ?_
  refine List.flatMap_congr fun item _ => ?_
  exact List.filterMap_congr fun field _ => hfield item.2 field

end Diagram

end Diagrams.Uml
