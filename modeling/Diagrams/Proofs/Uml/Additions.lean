/-
What resolving edges adds to a diagram.

Resolving never takes anything away, so what it does is told by what comes in addition: stubs behind
the types, edges behind the edges, and the names of the stubs among those that stand for something.
`Adds` says all of this for a row of edges.  An edge may name a stub that an earlier one made; but
an addition leaves what a name stands for, so one row of additions after another is again such a row
(`Adds.trans`), and the edges keep their ends.

Which stubs come in addition is told by the names alone (`newNames`), and there the order of the
edges makes no difference but to the order of the stubs.
-/
import Mathlib.Data.List.Forall2
import Mathlib.Data.List.Perm.Basic
import Diagrams.Proofs.Uml.TypeEdge

namespace Diagrams.Uml

/-! ### New names -/

/-- The names of a list that are not known yet, each where it first occurs. -/
def newNames : (known names : List Text) → List Text
  | _, [] => []
  | known, name :: names =>
    if name ∈ known then newNames known names else name :: newNames (known ++ [name]) names

theorem newNames_append (known names others : List Text) :
    newNames known (names ++ others)
      = newNames known names ++ newNames (known ++ newNames known names) others := by
  induction names generalizing known with
  | nil => simp [newNames]
  | cons name names ih =>
      by_cases h : name ∈ known
      · simp [newNames, h, ih]
      · simp [newNames, h, ih]

theorem mem_newNames {known names : List Text} {name : Text} :
    name ∈ newNames known names ↔ name ∈ names ∧ name ∉ known := by
  induction names generalizing known with
  | nil => simp [newNames]
  | cons first names ih =>
      by_cases h : first ∈ known
      · rw [newNames, if_pos h, ih, List.mem_cons]
        refine and_congr_left fun hnew => ⟨.inr, fun hmem => hmem.resolve_left ?_⟩
        rintro rfl
        exact hnew h
      · rw [newNames, if_neg h, List.mem_cons, ih]
        by_cases hname : name = first
        · subst hname
          simp [h]
        · simp [hname]

theorem nodup_newNames (known names : List Text) : (newNames known names).Nodup := by
  induction names generalizing known with
  | nil => exact List.nodup_nil
  | cons name names ih =>
      by_cases h : name ∈ known
      · rw [newNames, if_pos h]
        exact ih known
      · rw [newNames, if_neg h]
        refine List.nodup_cons.mpr ⟨fun hmem => ?_, ih _⟩
        exact (mem_newNames.mp hmem).2 (by simp)

/-- The order of the names makes no difference but to the order of the new ones. -/
theorem perm_newNames (known : List Text) {names names' : List Text} (h : names.Perm names') :
    (newNames known names).Perm (newNames known names') := by
  rw [List.perm_ext_iff_of_nodup (nodup_newNames _ _) (nodup_newNames _ _)]
  intro name
  rw [mem_newNames, mem_newNames, h.mem_iff]

/-- The edges of both roles, supertypes first. -/
def pendingEdges (supertypes interfaces : List TypeEdge) : List (Role × TypeEdge) :=
  supertypes.map (Role.supertype, ·) ++ interfaces.map (Role.interface, ·)

/-- The stubs for the targets that are not known yet, each where its name first occurs: an ordinary
type if it is a supertype anywhere, and an interface otherwise. -/
def missingStubs (known : List Text) (supertypes interfaces : List TypeEdge) : List Class :=
  (newNames known ((supertypes ++ interfaces).map TypeEdge.target)).map fun name =>
    .stub name (if name ∈ supertypes.map TypeEdge.target then .ordinary else .interface)

/-- Told role by role, the stubs for supertypes come first. -/
theorem missingStubs_eq (known : List Text) (supertypes interfaces : List TypeEdge) :
    missingStubs known supertypes interfaces
      = (newNames known (supertypes.map TypeEdge.target)).map (.stub · .ordinary) ++
        (newNames (known ++ newNames known (supertypes.map TypeEdge.target))
          (interfaces.map TypeEdge.target)).map (.stub · .interface) := by
  rw [missingStubs, List.map_append, newNames_append, List.map_append]
  congr 1
  · refine List.map_congr_left fun name hname => ?_
    rw [if_pos (mem_newNames.mp hname).1]
  · refine List.map_congr_left fun name hname => ?_
    have hnew := (mem_newNames.mp hname).2
    rw [if_neg fun hmem => hnew ?_]
    by_cases hknown : name ∈ known
    · exact List.mem_append_left _ hknown
    · exact List.mem_append_right _ (mem_newNames.mpr ⟨hmem, hknown⟩)

theorem perm_missingStubs (known : List Text)
    {supertypes supertypes' interfaces interfaces' : List TypeEdge}
    (hsupertypes : supertypes.Perm supertypes') (hinterfaces : interfaces.Perm interfaces') :
    (missingStubs known supertypes interfaces).Perm
      (missingStubs known supertypes' interfaces') := by
  have hmem : ∀ name, name ∈ supertypes.map TypeEdge.target ↔
      name ∈ supertypes'.map TypeEdge.target :=
    fun name => (hsupertypes.map TypeEdge.target).mem_iff
  unfold missingStubs
  simp only [hmem]
  exact (perm_newNames known ((hsupertypes.append hinterfaces).map TypeEdge.target)).map _

namespace Diagram

/-! ### Rows of additions -/

/-- The edge is the one that is called for. -/
structure Joins (diagram : Diagram) (pending : Role × TypeEdge)
    (edge : Edge Relationship) : Prop where
  source : diagram.lookup? pending.2.source = some edge.source
  target : diagram.lookup? pending.2.target = some edge.target
  label : edge.label = { kind := pending.1.relationshipKind }

/-- The diagram grows by stubs and by the edges that are called for, and by nothing else. -/
structure Adds (diagram next : Diagram) (stubs : List Class) (pending : List (Role × TypeEdge)) :
    Prop where
  title : next.title = diagram.title
  key : ∀ name, next.registry.key name = diagram.registry.key name
  /-- All types stay as they are, and the stubs are made. -/
  pool : next.pool = diagram.pool ++ stubs
  /-- The stubs are shown, in order, behind the types that were shown before. -/
  members : next.members = diagram.members ++ List.range' diagram.nextNode stubs.length
  /-- One edge for each that is called for is made and shown, in order, behind the edges that were
  shown before. -/
  edges : ∃ made, next.edgePool = diagram.edgePool ++ made ∧
    next.edges = diagram.edges ++ List.range' diagram.nextEdge made.length ∧
    List.Forall₂ (Joins next) pending made
  /-- What a name stood for it still stands for, and the names of stubs stand for these. -/
  lookup : ∀ name, next.lookup? name
    = (diagram.lookup? name).or (((stubs.map Class.name).idxOf? name).map (diagram.nextNode + ·))

/-- Names regard case, and the ones that stand for something are the given ones. -/
structure Knows (names : List Text) (diagram : Diagram) : Prop where
  key : ∀ name, diagram.registry.key name = name
  known : ∀ name, (diagram.lookup? name).isSome = true ↔ name ∈ names

namespace Adds

variable {diagram mid next : Diagram} {stubs stubs' : List Class}
  {pending pending' : List (Role × TypeEdge)} {names : List Text}

theorem refl (diagram : Diagram) : Adds diagram diagram [] [] where
  title := rfl
  key := fun _ => rfl
  pool := (List.append_nil _).symm
  members := (List.append_nil _).symm
  edges := ⟨[], (List.append_nil _).symm, (List.append_nil _).symm, .nil⟩
  lookup := fun _ => Option.or_none.symm

theorem lookup?_eq (h : Adds diagram next stubs pending) {name : Text} {node : Nat}
    (hnode : diagram.lookup? name = some node) : next.lookup? name = some node := by
  rw [h.lookup, hnode, Option.some_or]

/-- One row of additions after another. -/
theorem trans (h : Adds diagram mid stubs pending) (h' : Adds mid next stubs' pending') :
    Adds diagram next (stubs ++ stubs') (pending ++ pending') := by
  have hnext : mid.nextNode = diagram.nextNode + stubs.length := by
    rw [Graph.nextNode, h.pool, List.length_append, Graph.nextNode]
  obtain ⟨made, hedgePool, hedges, hjoins⟩ := h.edges
  obtain ⟨made', hedgePool', hedges', hjoins'⟩ := h'.edges
  have hnextEdge : mid.nextEdge = diagram.nextEdge + made.length := by
    rw [Graph.nextEdge, hedgePool, List.length_append, Graph.nextEdge]
  have hkept : List.Forall₂ (Joins next) pending made :=
    hjoins.imp fun _ _ hjoin => ⟨h'.lookup?_eq hjoin.source,
      h'.lookup?_eq hjoin.target, hjoin.label⟩
  refine ⟨h'.title.trans h.title, fun name => (h'.key name).trans (h.key name), ?_, ?_,
    ⟨made ++ made', ?_, ?_, List.rel_append hkept hjoins'⟩, fun name => ?_⟩
  · rw [h'.pool, h.pool, List.append_assoc]
  · rw [h'.members, h.members, hnext, List.length_append, List.append_assoc, ← List.range'_append_1]
  · rw [hedgePool', hedgePool, List.append_assoc]
  · rw [hedges', hedges, hnextEdge, List.length_append, List.append_assoc, ← List.range'_append_1]
  · have hplaces : ((stubs ++ stubs').map Class.name).idxOf? name
        = ((stubs.map Class.name).idxOf? name).or
          (((stubs'.map Class.name).idxOf? name).map (· + stubs.length)) := by
      rw [List.map_append, List.idxOf?, List.findIdx?_append, List.length_map]
    rw [h'.lookup, h.lookup, hnext, hplaces, Option.map_or, Option.map_map, Option.or_assoc]
    congr 3
    funext place
    exact (Nat.add_right_comm ..).trans (Nat.add_assoc ..)

/-- A stub for a name that stands for nothing. -/
theorem insert_stub (hkey : ∀ name, diagram.registry.key name = name) {name : Text}
    (hfree : diagram.lookup? name = none) (kind : Kind) :
    Adds diagram (Graph.insert diagram (.stub name kind)) [.stub name kind] [] := by
  refine ⟨rfl, fun _ => rfl, rfl, rfl,
    ⟨[], (List.append_nil _).symm, (List.append_nil _).symm, .nil⟩, fun other => ?_⟩
  have hname : Named.name (Class.stub name kind) = name := rfl
  have hnames : [Class.stub name kind].map Class.name = [name] := rfl
  rw [Graph.lookup?_insert, hkey, hkey, hname, hnames]
  by_cases hother : other = name
  · subst hother
    rw [if_pos rfl, hfree]
    simp [List.idxOf?]
  · have hnone : [name].idxOf? other = none := by simp [Ne.symm hother]
    rw [if_neg hother, hnone, Option.map_none, Option.or_none]

/-- An edge between types that are there. -/
theorem connect {edge : Edge Relationship} {called : Role × TypeEdge}
    (h : Joins diagram called edge) :
    Adds diagram (Graph.connect diagram edge) [] [called] :=
  ⟨rfl, fun _ => rfl, (List.append_nil _).symm, (List.append_nil _).symm,
    ⟨[edge], rfl, rfl, .cons ⟨h.source, h.target, h.label⟩ .nil⟩, fun _ => Option.or_none.symm⟩

/-- With the stubs their names are known. -/
theorem knows (h : Adds diagram next stubs pending) (hknows : Knows names diagram) :
    Knows (names ++ stubs.map Class.name) next where
  key := fun name => (h.key name).trans (hknows.key name)
  known := fun name => by
    rw [h.lookup, Option.isSome_or, Bool.or_eq_true, hknows.known, Option.isSome_map,
      List.isSome_idxOf?, List.mem_append]

end Adds

/-! ### Resolving -/

/-- Resolving one edge adds a stub where its target is new, and the edge. -/
theorem adds_resolveEdge {diagram : Diagram} {names : List Text} (h : Knows names diagram)
    {edge : TypeEdge} (hsource : edge.source ∈ names) (role : Role) (notes : List StubNote) :
    Adds diagram (resolveEdge role (diagram, notes) edge).1
      ((newNames names [edge.target]).map (.stub · role.stubKind)) [(role, edge)] := by
  obtain ⟨source, hlookup⟩ := Option.isSome_iff_exists.mp ((h.known edge.source).mpr hsource)
  rw [resolveEdge_of_known hlookup]
  cases htarget : diagram.lookup? edge.target with
  | some target =>
      have hknown : edge.target ∈ names := (h.known _).mp (by rw [htarget]; rfl)
      have hnew : newNames names [edge.target] = [] := by simp [newNames, hknown]
      rw [resolveOrStub_of_known htarget, hnew]
      exact .connect ⟨hlookup, htarget, rfl⟩
  | none =>
      have hfree : edge.target ∉ names := fun hmem => by
        have hsome := (h.known _).mpr hmem
        rw [htarget] at hsome
        exact Bool.noConfusion hsome
      have hnew : newNames names [edge.target] = [edge.target] := by simp [newNames, hfree]
      rw [resolveOrStub_of_free htarget, hnew]
      have hstub := Adds.insert_stub h.key htarget role.stubKind
      exact hstub.trans (.connect ⟨hstub.lookup?_eq hlookup, Graph.lookup?_insert_self .., rfl⟩)

/-- Resolving the edges of one role, one after the other. -/
theorem adds_foldl_resolveEdge {diagram : Diagram} {names : List Text} (h : Knows names diagram)
    {edges : List TypeEdge} (hsources : ∀ edge ∈ edges, edge.source ∈ names) (role : Role)
    (notes : List StubNote) :
    Adds diagram (edges.foldl (resolveEdge role) (diagram, notes)).1
      ((newNames names (edges.map TypeEdge.target)).map (.stub · role.stubKind))
      (edges.map (role, ·)) := by
  induction edges generalizing names diagram notes with
  | nil => exact .refl diagram
  | cons edge edges ih =>
      obtain ⟨hsource, hsources⟩ := List.forall_mem_cons.mp hsources
      have hfirst := adds_resolveEdge h hsource role notes
      obtain ⟨mid, notes', hstep⟩ : ∃ mid notes',
          resolveEdge role (diagram, notes) edge = (mid, notes') :=
        ⟨_, _, rfl⟩
      rw [hstep] at hfirst
      have hknows : Knows (names ++ newNames names [edge.target]) mid := by
        simpa [Function.comp_def, Class.stub] using hfirst.knows h
      have hothers := ih hknows
        (fun other hother => List.mem_append_left _ (hsources other hother)) notes'
      rw [List.foldl_cons, hstep, List.map_cons, List.map_cons, ← List.singleton_append,
        newNames_append, List.map_append]
      exact hfirst.trans hothers

section

variable {diagram : Diagram} {names : List Text} {supertypes interfaces : List TypeEdge}
  (h : Knows names diagram)

include h

/-- Resolving supertypes and then interfaces. -/
theorem adds_resolveTypeEdges (hsupertypes : ∀ edge ∈ supertypes, edge.source ∈ names)
    (hinterfaces : ∀ edge ∈ interfaces, edge.source ∈ names) :
    Adds diagram (diagram.resolveTypeEdges supertypes interfaces).1
      (missingStubs names supertypes interfaces) (pendingEdges supertypes interfaces) := by
  have hfirst := adds_foldl_resolveEdge h hsupertypes .supertype []
  obtain ⟨first, notes, hstep⟩ : ∃ first notes,
      supertypes.foldl (resolveEdge .supertype) (diagram, []) = (first, notes) := ⟨_, _, rfl⟩
  rw [hstep] at hfirst
  have hknows : Knows (names ++ newNames names (supertypes.map TypeEdge.target)) first := by
    simpa [Function.comp_def, Class.stub] using hfirst.knows h
  have hsecond := adds_foldl_resolveEdge hknows
    (fun edge hedge => List.mem_append_left _ (hinterfaces edge hedge)) .interface notes
  unfold resolveTypeEdges
  rw [hstep, missingStubs_eq]
  exact hfirst.trans hsecond

end

/-! ### Whatever the order -/

/-- Names regard case, and each stands for the last shown type of that name. -/
structure FindsLatest (diagram : Diagram) : Prop where
  key : ∀ name, diagram.registry.key name = name
  /-- Shown types were made. -/
  made : ∀ node ∈ diagram.members, node < diagram.nextNode
  lookup : ∀ name, diagram.lookup? name = diagram.latestNamed? name

/-- The names of the shown types. -/
def shownNames (diagram : Diagram) : List Text := diagram.members.map diagram.nameOf

/-- An end of an edge, told without the places of stubs. -/
inductive End
  /-- A type that was there before. -/
  | declared (node : Nat)
  /-- A stub. -/
  | stub (name : Text)

/-- What is at an end of an edge, for a diagram that has grown from another one. -/
def endAt (diagram next : Diagram) (node : Nat) : End :=
  if node < diagram.nextNode then .declared node else .stub (next.nameOf node)

/-- The types that a diagram has grown by. -/
def addedTypes (diagram next : Diagram) : List Class := next.pool.drop diagram.nextNode

/-- The edges that a diagram has grown by, told by what is at their ends. -/
def addedEdges (diagram next : Diagram) : List (End × End × Relationship) :=
  (next.edgePool.drop diagram.nextEdge).map fun edge =>
    (endAt diagram next edge.source, endAt diagram next edge.target, edge.label)

/-- What a name stands for, or the stub for it. -/
def endOf (diagram : Diagram) (name : Text) : End :=
  (diagram.lookup? name).elim (.stub name) .declared

/-- The edge that is called for, told by what is at its ends. -/
def calledFor (diagram : Diagram) (pending : Role × TypeEdge) : End × End × Relationship :=
  (diagram.endOf pending.2.source, diagram.endOf pending.2.target,
    { kind := pending.1.relationshipKind })

namespace Adds

variable {diagram next : Diagram} {stubs : List Class} {pending : List (Role × TypeEdge)}
  (h : Adds diagram next stubs pending)

include h

theorem addedTypes_eq : addedTypes diagram next = stubs := by
  rw [addedTypes, h.pool]
  exact List.drop_left

/-- A name that stood for nothing stands for the stub of that name. -/
theorem nameOf_stub {name : Text} {place : Nat}
    (hplace : (stubs.map Class.name).idxOf? name = some place) :
    next.nameOf (diagram.nextNode + place) = name := by
  obtain ⟨hlt, hname, -⟩ := List.idxOf?_eq_some_iff.mp hplace
  rw [List.length_map] at hlt
  have hnode : next.node? (diagram.nextNode + place) = some stubs[place] := by
    rw [Graph.node?, h.pool, Graph.nextNode, List.getElem?_append_right (Nat.le_add_right _ _),
      Nat.add_sub_cancel_left, List.getElem?_eq_getElem hlt]
  rw [Graph.nameOf, hnode]
  rwa [List.getElem_map] at hname

/-- What is at an end of an added edge is known before. -/
theorem endAt_eq (hlatest : diagram.FindsLatest) {name : Text} {node : Nat}
    (hnode : next.lookup? name = some node) : endAt diagram next node = diagram.endOf name := by
  rw [h.lookup] at hnode
  cases hlookup : diagram.lookup? name with
  | some found =>
      obtain rfl : found = node := by simpa [hlookup] using hnode
      have hlt : found < diagram.nextNode := by
        have hfound : diagram.latestNamed? name = some found := by rw [← hlatest.lookup, hlookup]
        exact hlatest.made found (Graph.mem_of_latestNamed? hfound).1
      rw [endAt, if_pos hlt, endOf, hlookup]
      rfl
  | none =>
      rw [hlookup, Option.none_or, Option.map_eq_some_iff] at hnode
      obtain ⟨place, hplace, rfl⟩ := hnode
      rw [endAt, if_neg (Nat.not_lt.mpr (Nat.le_add_right _ _)), h.nameOf_stub hplace,
        endOf, hlookup]
      rfl

theorem addedEdges_eq (hlatest : diagram.FindsLatest) :
    addedEdges diagram next = pending.map diagram.calledFor := by
  obtain ⟨made, hedgePool, -, hjoins⟩ := h.edges
  have hadded : next.edgePool.drop diagram.nextEdge = made := by
    rw [hedgePool]
    exact List.drop_left
  have hends : ∀ {name : Text} {node : Nat}, next.lookup? name = some node →
      endAt diagram next node = diagram.endOf name := h.endAt_eq hlatest
  rw [addedEdges, hadded]
  clear h hedgePool hadded
  induction hjoins with
  | nil => rfl
  | cons hjoin _ ih =>
      rw [List.map_cons, List.map_cons, ih, hends hjoin.source, hends hjoin.target, hjoin.label]
      rfl

end Adds

/-- Where names and types have not fallen apart, a name stands for the last type that has it. -/
theorem FindsLatest.of_consistent {diagram : Diagram} (h : Graph.Consistent diagram)
    (hkey : ∀ name, diagram.registry.key name = name) : diagram.FindsLatest :=
  ⟨hkey, h.inPool.members, h.names.lookup?_eq⟩

theorem FindsLatest.knows {diagram : Diagram} (h : diagram.FindsLatest) :
    Knows diagram.shownNames diagram where
  key := h.key
  known := fun name => by
    rw [h.lookup, Graph.latestNamed?, List.find?_isSome, shownNames, List.mem_map]
    simp [h.key]

/-- **Where all sources are shown, resolving adds one edge for each that is called for, supertypes
first, and one stub for each new target, where it first occurs, and changes nothing else.  In
another order the same stubs and the same edges come in addition.** -/
theorem resolveTypeEdges_adds {diagram : Diagram} (h : diagram.FindsLatest)
    {supertypes interfaces : List TypeEdge}
    (hsources : ∀ edge ∈ supertypes ++ interfaces, edge.source ∈ diagram.shownNames) :
    Adds diagram (diagram.resolveTypeEdges supertypes interfaces).1
      (missingStubs diagram.shownNames supertypes interfaces) (pendingEdges supertypes interfaces) ∧
    ∀ supertypes' interfaces' : List TypeEdge, supertypes.Perm supertypes' →
      interfaces.Perm interfaces' →
      (addedTypes diagram (diagram.resolveTypeEdges supertypes interfaces).1).Perm
        (addedTypes diagram (diagram.resolveTypeEdges supertypes' interfaces').1) ∧
      (addedEdges diagram (diagram.resolveTypeEdges supertypes interfaces).1).Perm
        (addedEdges diagram (diagram.resolveTypeEdges supertypes' interfaces').1) := by
  obtain ⟨hsupertypes, hinterfaces⟩ := List.forall_mem_append.mp hsources
  have hadds := adds_resolveTypeEdges h.knows hsupertypes hinterfaces
  refine ⟨hadds, fun supertypes' interfaces' hperm hperm' => ?_⟩
  have hadds' := adds_resolveTypeEdges h.knows
    (fun edge hedge => hsupertypes edge (hperm.mem_iff.mpr hedge))
    (fun edge hedge => hinterfaces edge (hperm'.mem_iff.mpr hedge))
  rw [hadds.addedTypes_eq, hadds'.addedTypes_eq, hadds.addedEdges_eq h, hadds'.addedEdges_eq h]
  refine ⟨perm_missingStubs _ hperm hperm', List.Perm.map _ ?_⟩
  exact (hperm.map _).append (hperm'.map _)

/-- A diagram where two types have the same name. -/
def twoCircles : Diagram :=
  Graph.insert (Graph.insert (Graph.insert (Diagram.empty []) { name := "Circle".toList })
    { name := "Shape".toList, kind := .interface }) { name := "Circle".toList }

theorem resolveTypeEdges_adds_circles :
    let supertypes : List TypeEdge :=
      [⟨"Circle".toList, "Round".toList⟩, ⟨"Shape".toList, "Drawn".toList⟩]
    let interfaces : List TypeEdge :=
      [⟨"Circle".toList, "Sized".toList⟩, ⟨"Circle".toList, "Drawn".toList⟩,
        ⟨"Circle".toList, "Shape".toList⟩]
    Adds twoCircles (twoCircles.resolveTypeEdges supertypes interfaces).1
      [.stub "Round".toList .ordinary, .stub "Drawn".toList .ordinary,
        .stub "Sized".toList .interface]
      (pendingEdges supertypes interfaces) ∧
    (addedEdges twoCircles (twoCircles.resolveTypeEdges supertypes interfaces).1).Perm
      (addedEdges twoCircles (twoCircles.resolveTypeEdges supertypes.reverse
        interfaces.reverse).1) := by
  intro supertypes interfaces
  have hconsistent : Graph.Consistent twoCircles :=
    (((Graph.Consistent.empty rfl rfl rfl).insert _).insert _).insert _
  have hlatest : FindsLatest twoCircles := .of_consistent hconsistent fun _ => rfl
  have hsources : ∀ edge ∈ supertypes ++ interfaces,
      edge.source ∈ twoCircles.shownNames := by decide
  exact ⟨(resolveTypeEdges_adds hlatest hsources).1,
    ((resolveTypeEdges_adds hlatest hsources).2 _ _ (List.reverse_perm _).symm
      (List.reverse_perm _).symm).2⟩

end Diagram

end Diagrams.Uml
