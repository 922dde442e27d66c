/-
Tables that were taken away.

A table is taken away under the name that it has then, while the names that stand for it are those
it had when it was shown.  The two agree as long as nobody renames a table in between, and the steps
of a `Step` history do not.  Here a history is any list of edits, and an edit may rename what the
diagram shows.

`Gone` is what taking a table away is for: the table is not shown, and no name stands for it.
Every edit but showing the table again keeps it, because names are only ever given to a table
that is being shown or, where another table of that name goes, to one that is shown
(`Gone.apply`).  Whether a table is gone once it was taken away is told by the names that stood
for it (`lookup?_remove_of_once`).
-/
import Diagrams.Er.Layout
import Diagrams.Proofs.Er.Coherent
import Diagrams.Proofs.Graph.Step

namespace Diagrams

namespace Registry

variable {α : Type}

theorem get?_register (registry : Registry α) (name other : Text) (object : Option α) :
    (registry.register name object).get? other
      = if registry.key other = registry.key name then object else registry.get? other := by
  unfold get?
  rw [binding?_register]
  split <;> rfl

theorem get?_eq_some_iff (registry : Registry α) (name : Text) (object : α) :
    registry.get? name = some object ↔ registry.binding? name = some (some object) :=
  Option.join_eq_some_iff

theorem get?_congr (registry : Registry α) {name other : Text}
    (h : registry.key name = registry.key other) : registry.get? name = registry.get? other := by
  unfold get? binding?
  rw [h]

variable [DecidableEq α]

theorem get?_unregister (registry : Registry α) (name other : Text) (object : α) :
    (registry.unregister name (some object)).get? other
      = if registry.key other = registry.key name ∧ registry.get? name = some object
        then none else registry.get? other := by
  simp only [get?_eq_some_iff]
  unfold get?
  rw [binding?_unregister]
  split <;> rfl

end Registry

namespace Graph

variable {ν ε : Type} [Named ν] {graph : Graph ν ε} {node : Nat}

theorem lookup?_add (graph : Graph ν ε) (node : Nat) (name : Text) :
    (graph.add node).lookup? name
      = if graph.registry.key name = graph.registry.key (graph.nameOf node)
        then some node else graph.lookup? name :=
  Registry.get?_register ..

theorem lookup?_hide (graph : Graph ν ε) (node : Nat) (name : Text) :
    (graph.hide node).lookup? name
      = if graph.registry.key name = graph.registry.key (graph.nameOf node) ∧
            graph.lookup? (graph.nameOf node) = some node
        then none else graph.lookup? name :=
  Registry.get?_unregister ..

/-- Rebinding a name gives nothing but names with its key away. -/
theorem lookup?_rebind_of_ne {name other : Text}
    (h : graph.registry.key other ≠ graph.registry.key name) :
    (graph.rebind name).lookup? other = graph.lookup? other := by
  unfold rebind
  split
  · rfl
  split
  case _ heir hheir =>
    have hkey := (mem_of_latestNamed? hheir).2
    exact (Registry.get?_register ..).trans (if_neg (hkey ▸ h))
  · rfl

/-- Rebinding a name gives it to a shown node that has it. -/
theorem lookup?_rebind_cases {name other : Text}
    (h : (graph.rebind name).lookup? other = some node) :
    graph.lookup? other = some node ∨
      node ∈ graph.members ∧ graph.registry.key other = graph.registry.key (graph.nameOf node) := by
  unfold rebind at h
  split at h
  · exact .inl h
  split at h
  case _ heir hheir =>
    have hother : (graph.registry.register (graph.nameOf heir) (some heir)).get? other
        = some node := h
    rw [Registry.get?_register] at hother
    split at hother
    case isTrue hkey =>
      obtain rfl := Option.some.inj hother
      exact .inr ⟨(mem_of_latestNamed? hheir).1, hkey⟩
    case isFalse => exact .inl hother
  · exact .inl h

theorem members_remove (graph : Graph ν ε) (node : Nat) :
    (graph.remove node).members = graph.members.erase node := by
  by_cases hmem : node ∈ graph.members
  · rw [remove_of_mem hmem, rebind_eq]
    rfl
  · rw [remove_of_not_mem hmem, List.erase_of_not_mem hmem]

/-- A name that stands for a node after some node was taken away stood for it before, or it was
given to it because the node is shown and has that name. -/
theorem lookup?_remove_cases {removed : Nat} {name : Text}
    (h : (graph.remove removed).lookup? name = some node) :
    graph.lookup? name = some node ∧
        (removed = node → graph.registry.key name ≠ graph.registry.key (graph.nameOf node) ∨
          node ∉ graph.members) ∨
      node ∈ (graph.remove removed).members ∧
        graph.registry.key name = graph.registry.key (graph.nameOf node) := by
  by_cases hmem : removed ∈ graph.members
  · have hkey : ∀ other, (graph.hide removed).registry.key other = graph.registry.key other :=
      fun other => Registry.key_unregister ..
    rw [remove_of_mem hmem] at h ⊢
    rcases lookup?_rebind_cases h with hhide | ⟨hshown, hname⟩
    · rw [lookup?_hide] at hhide
      split at hhide
      case isTrue => cases hhide
      case isFalse hkept =>
        refine .inl ⟨hhide, ?_⟩
        rintro rfl
        refine .inl fun hname => hkept ⟨hname, ?_⟩
        exact (Registry.get?_congr _ hname).symm.trans hhide
    · rw [hkey, hkey] at hname
      refine .inr ⟨?_, hname⟩
      rw [rebind_eq]
      exact hshown
  · rw [remove_of_not_mem hmem] at h ⊢
    refine .inl ⟨h, ?_⟩
    rintro rfl
    exact .inr hmem

/-- Of the names that stand for a node that is shown once, those that are not spellings of its name
still stand for it after it is taken away. -/
theorem lookup?_remove_of_once (h : graph.members.count node = 1) (name : Text) :
    (graph.remove node).lookup? name = some node ↔
      graph.lookup? name = some node ∧
        graph.registry.key name ≠ graph.registry.key (graph.nameOf node) := by
  have hmem : node ∈ graph.members := List.count_pos_iff.mp (by omega)
  have hhidden : node ∉ (graph.remove node).members := by
    rw [members_remove, ← List.count_eq_zero, List.count_erase_self, h]
  constructor
  · intro hlookup
    rcases lookup?_remove_cases hlookup with ⟨hbefore, hname⟩ | ⟨hshown, -⟩
    · exact ⟨hbefore, (hname rfl).resolve_right (not_not_intro hmem)⟩
    · exact absurd hshown hhidden
  · rintro ⟨hlookup, hname⟩
    have hkey : (graph.hide node).registry.key name
        ≠ (graph.hide node).registry.key (graph.nameOf node) := by
      rwa [hide, Registry.key_unregister, Registry.key_unregister]
    rw [remove_of_mem hmem, lookup?_rebind_of_ne hkey, lookup?_hide,
      if_neg fun hboth => hname hboth.1]
    exact hlookup

end Graph

namespace Er.Diagram

/-- What is done to a diagram by one who may also change the tables that it shows. -/
inductive Edit
  /-- Make a table. -/
  | create (made : Entity)
  /-- Change a table, perhaps its name. -/
  | modify (entity : Nat) (change : Entity → Entity)
  /-- Show a table. -/
  | add (entity : Nat)
  /-- Stop showing a table. -/
  | remove (entity : Nat)
  /-- Make a relationship. -/
  | createEdge (edge : Edge Relationship)
  /-- Show a relationship. -/
  | addEdge (number : Nat)
  /-- Stop showing a relationship. -/
  | removeEdge (number : Nat)
  /-- Resolve foreign keys. -/
  | resolveForeignKeys (keys : List ForeignKey)
  /-- Place the tables on a grid. -/
  | autoLayout (grid : Grid)
  /-- Show nothing any more. -/
  | clear

/-- The diagram after an edit. -/
def apply (diagram : Diagram) : Edit → Diagram
  | .create made => diagram.create made
  | .modify entity change => diagram.modify entity change
  | .add entity => diagram.add entity
  | .remove entity => diagram.remove entity
  | .createEdge edge => diagram.createEdge edge
  | .addEdge number => diagram.addEdge number
  | .removeEdge number => diagram.removeEdge number
  | .resolveForeignKeys keys => diagram.resolveForeignKeys keys
  | .autoLayout grid => diagram.autoLayout grid
  | .clear => diagram.clear

/-- The diagram after edits. -/
def after (diagram : Diagram) (edits : List Edit) : Diagram := edits.foldl apply diagram

variable {diagram : Diagram} {entity : Nat} {edit : Edit}

/-- Names and shown tables are touched by showing tables and by taking them away, and by no other
edit. -/
theorem apply_cases (diagram : Diagram) (edit : Edit) :
    (∃ shown, edit = .add shown) ∨ (∃ removed, edit = .remove removed) ∨ edit = .clear ∨
      ((diagram.apply edit).members = diagram.members ∧
        (diagram.apply edit).registry = diagram.registry) := by
  cases edit with
  | add shown => exact .inl ⟨shown, rfl⟩
  | remove removed => exact .inr (.inl ⟨removed, rfl⟩)
  | clear => exact .inr (.inr (.inl rfl))
  | create | modify | createEdge | addEdge | removeEdge => exact .inr (.inr (.inr ⟨rfl, rfl⟩))
  | resolveForeignKeys keys =>
      have hresolved : (diagram.apply (.resolveForeignKeys keys)) = _ :=
        Graph.foldl_connect diagram (diagram.relationshipsOf keys)
      rw [hresolved]
      exact .inr (.inr (.inr ⟨rfl, rfl⟩))
  | autoLayout grid =>
      have hsame := sameTables_autoLayout diagram grid
      exact .inr (.inr (.inr ⟨hsame.members, hsame.registry⟩))

theorem key_apply (diagram : Diagram) (edit : Edit) (name : Text) :
    (diagram.apply edit).registry.key name = diagram.registry.key name := by
  obtain ⟨shown, rfl⟩ | ⟨removed, rfl⟩ | rfl | ⟨-, hregistry⟩ := apply_cases diagram edit
  · rfl
  · exact (Graph.Step.remove diagram removed).key_eq name
  · rfl
  · rw [hregistry]

/-- Whatever is done to an empty diagram, table names do not regard case. -/
theorem key_after (title : Text) (edits : List Edit) (name : Text) :
    ((Diagram.empty title).after edits).registry.key name = name.lower := by
  refine List.foldlRecOn (motive := fun diagram : Diagram =>
    diagram.registry.key name = name.lower) edits apply rfl fun diagram hkey edit _ => ?_
  exact (key_apply diagram edit name).trans hkey

/-! ### A table that is gone -/

/-- The table is not shown, and no name stands for it. -/
structure Gone (diagram : Diagram) (entity : Nat) : Prop where
  hidden : entity ∉ diagram.members
  unnamed : ∀ name, diagram.lookup? name ≠ some entity

/-- A table that is gone stays so until it is shown again. -/
theorem Gone.apply (h : Gone diagram entity) (hedit : edit ≠ .add entity) :
    Gone (diagram.apply edit) entity := by
  obtain ⟨shown, rfl⟩ | ⟨removed, rfl⟩ | rfl | ⟨hmembers, hregistry⟩ := apply_cases diagram edit
  · have hne : shown ≠ entity := fun heq => hedit (congrArg Edit.add heq)
    constructor
    · intro hmem
      rcases List.mem_append.mp (show entity ∈ diagram.members ++ [shown] from hmem)
        with hold | hnew
      · exact h.hidden hold
      · exact hne (List.mem_singleton.mp hnew).symm
    · intro name hlookup
      rw [show (diagram.apply (.add shown)).lookup? name = _ from Graph.lookup?_add ..] at hlookup
      split at hlookup
      case isTrue => exact hne (Option.some.inj hlookup)
      case isFalse => exact h.unnamed name hlookup
  · have hhidden : entity ∉ (diagram.remove removed).members := by
      rw [Graph.members_remove]
      exact fun hshown => h.hidden (List.mem_of_mem_erase hshown)
    refine ⟨hhidden, fun name hlookup => ?_⟩
    rcases Graph.lookup?_remove_cases hlookup with ⟨hbefore, -⟩ | ⟨hshown, -⟩
    · exact h.unnamed name hbefore
    · exact hhidden hshown
  · exact ⟨List.not_mem_nil, fun name => by simp [apply, Graph.clear, Graph.lookup?, Registry.get?]⟩
  · refine ⟨hmembers ▸ h.hidden, fun name => ?_⟩
    unfold Graph.lookup?
    rw [hregistry]
    exact h.unnamed name

theorem Gone.after (h : Gone diagram entity) {later : List Edit} (hlater : .add entity ∉ later) :
    Gone (diagram.after later) entity := by
  refine List.foldlRecOn (motive := fun reached : Diagram => Gone reached entity) later
    Diagram.apply h fun reached hreached edit hedit => ?_
  exact hreached.apply (ne_of_mem_of_not_mem hedit hlater)

/-- No foreign key gives rise to a relationship that ends at a table no name stands for. -/
theorem involves_of_mem_relationshipsOf (h : ∀ name, diagram.lookup? name ≠ some entity)
    {keys : List ForeignKey} {edge : Edge Relationship}
    (hedge : edge ∈ diagram.relationshipsOf keys) :
    edge.involves entity = false := by
  obtain ⟨key, -, hkey⟩ := List.mem_filterMap.mp hedge
  obtain ⟨source, target, hsource, htarget, rfl⟩ := (relationshipOf?_eq_some_iff ..).mp hkey
  have hne : source ≠ entity ∧ target ≠ entity :=
    ⟨fun heq => h _ (heq ▸ hsource), fun heq => h _ (heq ▸ htarget)⟩
  simpa [Edge.involves, relationship] using hne

/-! ### A table that keeps its name while it is shown -/

/-- Whatever stands for the table is a spelling of its name, and then the table is shown. -/
def Tracked (diagram : Diagram) (entity : Nat) : Prop :=
  ∀ name, diagram.lookup? name = some entity → entity ∈ diagram.members ∧
    diagram.registry.key name = diagram.registry.key (diagram.nameOf entity)

/-- The edit leaves the name of the table as it is, case aside, if the diagram shows the table. -/
def KeepsName (diagram : Diagram) (entity : Nat) (edit : Edit) : Prop :=
  entity ∈ diagram.members →
    ((diagram.apply edit).nameOf entity).lower = (diagram.nameOf entity).lower

/-- So do all the edits, one after the other. -/
def KeepNames (entity : Nat) : Diagram → List Edit → Prop
  | _, [] => True
  | diagram, edit :: edits =>
      KeepsName diagram entity edit ∧ KeepNames entity (diagram.apply edit) edits

theorem Tracked.apply (h : Tracked diagram entity)
    (hcase : ∀ name, diagram.registry.key name = name.lower)
    (hkeeps : KeepsName diagram entity edit) : Tracked (diagram.apply edit) entity := by
  -- It suffices to know the shown tables and the name that stood for the table before the edit.
  have hnext : ∀ name, entity ∈ diagram.members → entity ∈ (diagram.apply edit).members →
      diagram.registry.key name = diagram.registry.key (diagram.nameOf entity) →
      entity ∈ (diagram.apply edit).members ∧ (diagram.apply edit).registry.key name
        = (diagram.apply edit).registry.key ((diagram.apply edit).nameOf entity) := by
    intro name hbefore hshown hname
    rw [key_apply, key_apply, hname, hcase, hcase]
    exact ⟨hshown, (hkeeps hbefore).symm⟩
  intro name hlookup
  obtain ⟨shown, rfl⟩ | ⟨removed, rfl⟩ | rfl | ⟨hmembers, hregistry⟩ := apply_cases diagram edit
  · have hadd : (diagram.apply (.add shown)).lookup? name = _ :=
      Graph.lookup?_add diagram shown name
    rw [hadd] at hlookup
    split at hlookup
    case isTrue hname =>
      obtain rfl := Option.some.inj hlookup
      exact ⟨List.mem_append_right _ (List.mem_singleton_self shown), hname⟩
    case isFalse =>
      obtain ⟨hmem, hname⟩ := h name hlookup
      exact hnext name hmem (List.mem_append_left _ hmem) hname
  · rcases Graph.lookup?_remove_cases hlookup with ⟨hbefore, haway⟩ | ⟨hshown, hname⟩
    · obtain ⟨hmem, hname⟩ := h name hbefore
      have hne : entity ≠ removed := by
        rintro rfl
        exact (haway rfl).elim (fun hother => hother hname) (fun hhidden => hhidden hmem)
      have hshown : entity ∈ (diagram.apply (.remove removed)).members := by
        rw [show (diagram.apply (.remove removed)).members = _ from Graph.members_remove ..]
        exact (List.mem_erase_of_ne hne).mpr hmem
      exact hnext name hmem hshown hname
    · rw [Graph.members_remove] at hshown
      exact hnext name (List.mem_of_mem_erase hshown)
        ((Graph.members_remove diagram removed).symm ▸ hshown) hname
  · exact absurd hlookup (by simp [Diagram.apply, Graph.clear, Graph.lookup?, Registry.get?])
  · have hbefore : diagram.lookup? name = some entity := by
      unfold Graph.lookup? at hlookup ⊢
      rwa [hregistry] at hlookup
    obtain ⟨hmem, hname⟩ := h name hbefore
    exact hnext name hmem (hmembers ▸ hmem) hname

theorem Tracked.after (h : Tracked diagram entity)
    (hcase : ∀ name, diagram.registry.key name = name.lower) {edits : List Edit}
    (hkeep : KeepNames entity diagram edits) : Tracked (diagram.after edits) entity := by
  induction edits generalizing diagram with
  | nil => exact h
  | cons edit edits ih =>
      exact ih (h.apply hcase hkeep.1) (fun name => (key_apply ..).trans (hcase name)) hkeep.2

/-! ### Taking a table away for good -/

/-- Until the table is shown again, whatever is done, no name stands for it and no foreign key gives
rise to a relationship that ends at it. -/
def GoneForGood (diagram : Diagram) (entity : Nat) : Prop :=
  ∀ later : List Edit, .add entity ∉ later →
    (∀ name, (diagram.after later).lookup? name ≠ some entity) ∧
      ∀ keys, ∀ edge ∈ (diagram.after later).relationshipsOf keys, edge.involves entity = false

theorem goneForGood_iff (hhidden : entity ∉ diagram.members) :
    GoneForGood diagram entity ↔ ∀ name, diagram.lookup? name ≠ some entity := by
  constructor
  · exact fun hgone => (hgone [] List.not_mem_nil).1
  · intro hunnamed later hlater
    have hgone := (Gone.mk hhidden hunnamed).after hlater
    exact ⟨hgone.unnamed, fun _ _ hedge => involves_of_mem_relationshipsOf hgone.unnamed hedge⟩

/-- **A table that is shown once is taken away for good just if every name that stood for it was a
spelling of the name it then had; and this is so if no edit renamed the table, case aside, while the
diagram showed it.** -/
theorem goneForGood_remove {title : Text} {edits : List Edit}
    (honce : ((Diagram.empty title).after edits).members.count entity = 1) :
    let before := (Diagram.empty title).after edits
    (GoneForGood (before.remove entity) entity ↔
        ∀ name, before.lookup? name = some entity → name.lower = (before.nameOf entity).lower) ∧
      (KeepNames entity (.empty title) edits → GoneForGood (before.remove entity) entity) := by
  intro before
  have hhidden : entity ∉ (before.remove entity).members := by
    rw [Graph.members_remove, ← List.count_eq_zero, List.count_erase_self, honce]
  have hiff : GoneForGood (before.remove entity) entity ↔
      ∀ name, before.lookup? name = some entity → name.lower = (before.nameOf entity).lower := by
    rw [goneForGood_iff hhidden]
    refine forall_congr' fun name => ?_
    rw [ne_eq, Graph.lookup?_remove_of_once honce, key_after, key_after, not_and, not_not]
  refine ⟨hiff, fun hkeep => hiff.mpr fun name hname => ?_⟩
  have hempty : Tracked (.empty title) entity := fun _ hlookup => by cases hlookup
  have htracked := (hempty.after (fun _ => rfl) hkeep name hname).2
  rwa [key_after, key_after] at htracked

/-- A table that is renamed after it is shown, and gets its name back before it is taken away. -/
def renamedBack : Diagram :=
  (Diagram.empty []).after
    [.create { name := "orders".toList }, .add 0, .modify 0 ({ · with name := "lines".toList }),
      .modify 0 ({ · with name := "ORDERS".toList })]

theorem goneForGood_remove_renamedBack :
    renamedBack.members.count 0 = 1 ∧ GoneForGood (renamedBack.remove 0) 0 := by
  refine ⟨rfl, (@goneForGood_remove 0 [] _ rfl).1.mpr fun name hname => ?_⟩
  -- The only name that is bound is the one that the table had when it was shown.
  have hbound : ([("orders".toList, some 0)].lookup name.lower).join = some 0 := hname
  by_contra hother
  have hbeq : (name.lower == "orders".toList) = false := beq_eq_false_iff_ne.mpr hother
  rw [List.lookup_cons, hbeq] at hbound
  cases hbound

/-- A table that is renamed after it is shown, and then taken away. -/
def renamedAway : Diagram :=
  (Diagram.empty []).after
    [.create { name := "orders".toList }, .add 0, .modify 0 ({ · with name := "lines".toList })]

/-- A table that does not bear the name any more under which it was shown stays behind under that
name, and foreign keys find it there. -/
theorem not_goneForGood_renamedAway :
    renamedAway.members.count 0 = 1 ∧ ¬ GoneForGood (renamedAway.remove 0) 0 ∧
      (renamedAway.remove 0).lookup? "orders".toList = some 0 ∧
      ∃ edge ∈ (renamedAway.apply (.remove 0)).relationshipsOf
          [{ sourceTable := "orders".toList, column := "id".toList,
             targetTable := "orders".toList, targetColumn := none }],
        edge.involves 0 = true := by
  have hbehind : (renamedAway.remove 0).lookup? "orders".toList = some 0 := by decide
  refine ⟨rfl, fun hgone => (hgone [] List.not_mem_nil).1 _ hbehind, hbehind, ?_⟩
  decide

end Er.Diagram

end Diagrams
