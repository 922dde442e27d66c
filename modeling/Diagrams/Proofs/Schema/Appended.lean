/-
One script after another.

The statements of two scripts are read one after another, and the second script does not see the
tables of the first, unless it changes one of them or declares one again.  Without that, the tables
of both stand side by side, those of the second numbered behind those of the first (`Joined`).

References are another matter.  They wait until the end, and a reference that leads nowhere in one
script may find its table in the other.  So the relationships of both scripts are there, and all
that is new goes from one to the other.
-/
import Mathlib.Data.List.Basic
import Diagrams.Proofs.Schema.Recorded
import Diagrams.Proofs.Schema.Statements

namespace Diagrams

/-- The edge between the same nodes under other numbers. -/
def Edge.renumber {ε : Type} (number : Nat → Nat) (edge : Edge ε) : Edge ε :=
  { edge with source := number edge.source, target := number edge.target }

namespace Er.Diagram

/-- A diagram is made of two diagrams side by side, with nothing new but relationships between
them. -/
structure IsJoin (first second joined : Diagram) : Prop where
  /-- The tables of the second diagram are behind those of the first. -/
  nodes : joined.nodes = first.nodes ++ second.nodes
  /-- They are numbered in this order. -/
  members : joined.members = List.range (first.nodes.length + second.nodes.length)
  /-- The relationships between tables of the first diagram are those of the first diagram. -/
  within : joined.shownEdges.filter
    (fun edge => edge.source < first.nodes.length ∧ edge.target < first.nodes.length)
      = first.shownEdges
  /-- The relationships between tables of the second diagram are those of the second diagram. -/
  beyond : joined.shownEdges.filter
    (fun edge => first.nodes.length ≤ edge.source ∧ first.nodes.length ≤ edge.target)
      = second.shownEdges.map (·.renumber (first.nodes.length + ·))
  /-- All other relationships go from one diagram to the other. -/
  across : ∀ edge ∈ joined.shownEdges,
    ¬ (edge.source < first.nodes.length ∧ edge.target < first.nodes.length) →
    ¬ (first.nodes.length ≤ edge.source ∧ first.nodes.length ≤ edge.target) →
    (edge.source < first.nodes.length ∧ first.nodes.length ≤ edge.target ∧
        edge.target < first.nodes.length + second.nodes.length) ∨
      (edge.target < first.nodes.length ∧ first.nodes.length ≤ edge.source ∧
        edge.source < first.nodes.length + second.nodes.length)

end Er.Diagram

namespace Schema

theorem modify_append_right {α : Type} (items others : List α) (place : Nat) (change : α → α) :
    (items ++ others).modify (items.length + place) change
      = items ++ others.modify place change := by
  induction items with
  | nil => rw [List.nil_append, List.length_nil, Nat.zero_add, List.nil_append]
  | cons item items ih =>
      rw [List.length_cons, Nat.succ_add, List.cons_append, List.modify_succ_cons, ih]
      rfl

namespace Progress

/-! ### The effect of a statement, told by what it says -/

namespace Effect

variable {before after : Progress} {statement : Text}

theorem of_declared (h : Effect before statement after) {definition : Definition}
    (hdeclared : declared? statement = some definition) :
    after.diagram = before.diagram.insert definition.entity ∧
      after.pending = before.pending ++ definition.foreignKeys := by
  cases h with
  | declare other declared diagram pending =>
      obtain rfl := Option.some.inj (declared.symm.trans hdeclared)
      exact ⟨diagram, pending⟩
  | change table changes node change known diagram pending =>
      have hnone : declared? statement = none := declared?_of_change_eq_some change
      exact absurd (hdeclared.symm.trans hnone) (Option.some_ne_none _)
  | nothing declared unknown diagram pending =>
      exact absurd (hdeclared.symm.trans declared) (Option.some_ne_none _)

theorem of_change (h : Effect before statement after) {table changes : Text} {node : Nat}
    (hchange : change? statement = some (table, changes))
    (hknown : before.diagram.lookup? table = some node) :
    after.diagram = before.diagram.modify node (·.applyKeys (addedPrimaryKeys changes)
        (addedForeignKeys (before.diagram.nameOf node) changes)) ∧
      after.pending = before.pending ++ addedForeignKeys (before.diagram.nameOf node) changes := by
  cases h with
  | declare definition declared diagram pending =>
      have hnone : declared? statement = none := declared?_of_change_eq_some hchange
      exact absurd (declared.symm.trans hnone) (Option.some_ne_none _)
  | change other otherChanges otherNode change known diagram pending =>
      obtain ⟨rfl, rfl⟩ := Prod.mk.inj (Option.some.inj (change.symm.trans hchange))
      obtain rfl := Option.some.inj (known.symm.trans hknown)
      exact ⟨diagram, pending⟩
  | nothing declared unknown diagram pending =>
      have hnone := unknown table changes hchange
      exact absurd (hknown.symm.trans hnone) (Option.some_ne_none _)

theorem of_nothing (h : Effect before statement after) (hdeclared : declared? statement = none)
    (hunknown : ∀ table changes, change? statement = some (table, changes) →
      before.diagram.lookup? table = none) :
    after.diagram = before.diagram ∧ after.pending = before.pending := by
  cases h with
  | declare definition declared diagram pending =>
      exact absurd (declared.symm.trans hdeclared) (Option.some_ne_none _)
  | change table changes node change known diagram pending =>
      have hnone := hunknown table changes change
      exact absurd (known.symm.trans hnone) (Option.some_ne_none _)
  | nothing declared unknown diagram pending => exact ⟨diagram, pending⟩

end Effect

/-! ### Two readings side by side -/

/-- A reading has what two readings have, the second behind the first. -/
structure Joined (first second joined : Progress) : Prop where
  left : first.Settled
  right : second.Settled
  both : joined.Settled
  pool : joined.diagram.pool = first.diagram.pool ++ second.diagram.pool
  pending : joined.pending = first.pending ++ second.pending

namespace Joined

variable {first second joined : Progress}

theorem start (h : first.Settled) (title : Text) :
    Joined first { diagram := .empty title } first :=
  ⟨h, settled_start title, h, (List.append_nil _).symm, (List.append_nil _).symm⟩

theorem node?_within (h : Joined first second joined) {node : Nat}
    (hnode : node < first.diagram.pool.length) :
    joined.diagram.node? node = first.diagram.node? node := by
  unfold Graph.node?
  rw [h.pool, List.getElem?_append_left hnode]

theorem node?_beyond (h : Joined first second joined) (node : Nat) :
    joined.diagram.node? (first.diagram.pool.length + node) = second.diagram.node? node := by
  unfold Graph.node?
  rw [h.pool, List.getElem?_append_right (Nat.le_add_right _ _), Nat.add_sub_cancel_left]

theorem nameOf_within (h : Joined first second joined) {node : Nat}
    (hnode : node < first.diagram.pool.length) :
    joined.diagram.nameOf node = first.diagram.nameOf node := by
  unfold Graph.nameOf
  rw [h.node?_within hnode]

theorem nameOf_beyond (h : Joined first second joined) (node : Nat) :
    joined.diagram.nameOf (first.diagram.pool.length + node) = second.diagram.nameOf node := by
  unfold Graph.nameOf
  rw [h.node?_beyond]

/-- A name stands for a table of the second reading, or else for one of the first. -/
theorem lookup? (h : Joined first second joined) (name : Text) :
    joined.diagram.lookup? name
      = ((second.diagram.lookup? name).map (first.diagram.pool.length + ·)).or
          (first.diagram.lookup? name) := by
  rw [h.both.names.lookup?_eq, h.left.names.lookup?_eq, h.right.names.lookup?_eq]
  unfold Graph.latestNamed?
  rw [h.both.members, h.left.members, h.right.members, h.pool, List.length_append, List.range_add,
    List.reverse_append, List.find?_append, ← List.map_reverse, List.find?_map]
  simp only [h.both.key, h.left.key, h.right.key]
  refine congrArg₂ Option.or (congrArg (Option.map _) ?_) ?_
  · apply List.find?_congr
    intro node hnode
    rw [Function.comp_apply, h.nameOf_beyond]
  · apply List.find?_congr
    intro node hnode
    rw [List.mem_reverse, List.mem_range] at hnode
    rw [h.nameOf_within hnode]

/-- A statement of the second script does the same behind the first one. -/
theorem readStatement (h : Joined first second joined) {statement : Text}
    (hunchanged : ∀ table changes, change? statement = some (table, changes) →
      first.diagram.lookup? table = none) :
    Joined first (second.readStatement statement) (joined.readStatement statement) := by
  have hright := effect_readStatement second statement
  have hboth := effect_readStatement joined statement
  suffices hsame : (joined.readStatement statement).diagram.pool
        = first.diagram.pool ++ (second.readStatement statement).diagram.pool ∧
      (joined.readStatement statement).pending
        = first.pending ++ (second.readStatement statement).pending from
    ⟨h.left, h.right.readStatement statement, h.both.readStatement statement, hsame.1, hsame.2⟩
  cases hdeclared : declared? statement with
  | some definition =>
      obtain ⟨hdiagram, hpending⟩ := hright.of_declared hdeclared
      obtain ⟨hdiagram', hpending'⟩ := hboth.of_declared hdeclared
      rw [hdiagram, hpending, hdiagram', hpending', Graph.pool_insert, Graph.pool_insert, h.pool,
        h.pending, List.append_assoc, List.append_assoc]
      exact ⟨rfl, rfl⟩
  | none =>
      have hlookup : ∀ table changes, change? statement = some (table, changes) →
          joined.diagram.lookup? table
            = (second.diagram.lookup? table).map (first.diagram.pool.length + ·) := by
        intro table changes hchange
        rw [h.lookup?, hunchanged table changes hchange, Option.or_none]
      by_cases hknown : ∃ table changes node, change? statement = some (table, changes) ∧
          second.diagram.lookup? table = some node
      · obtain ⟨table, changes, node, hchange, hnode⟩ := hknown
        obtain ⟨hdiagram, hpending⟩ := hright.of_change hchange hnode
        have hnode' := hlookup table changes hchange
        rw [hnode] at hnode'
        obtain ⟨hdiagram', hpending'⟩ := hboth.of_change hchange hnode'
        rw [hdiagram, hpending, hdiagram', hpending', h.nameOf_beyond, h.pending, List.append_assoc]
        refine ⟨?_, rfl⟩
        show joined.diagram.pool.modify (first.diagram.pool.length + node) _ = _
        rw [h.pool, modify_append_right]
        rfl
      · have hunknown : ∀ table changes, change? statement = some (table, changes) →
            second.diagram.lookup? table = none := by
          intro table changes hchange
          apply Option.eq_none_iff_forall_ne_some.mpr
          intro node hnode
          exact hknown ⟨table, changes, node, hchange, hnode⟩
        have hunknown' : ∀ table changes, change? statement = some (table, changes) →
            joined.diagram.lookup? table = none := by
          intro table changes hchange
          rw [hlookup table changes hchange, hunknown table changes hchange]
          rfl
        obtain ⟨hdiagram, hpending⟩ := hright.of_nothing hdeclared hunknown
        obtain ⟨hdiagram', hpending'⟩ := hboth.of_nothing hdeclared hunknown'
        rw [hdiagram, hpending, hdiagram', hpending']
        exact ⟨h.pool, h.pending⟩

theorem foldl_readStatement (h : Joined first second joined) {statements : List Text}
    (hunchanged : ∀ statement ∈ statements, ∀ table changes,
      change? statement = some (table, changes) → first.diagram.lookup? table = none) :
    Joined first (statements.foldl Progress.readStatement second)
      (statements.foldl Progress.readStatement joined) := by
  induction statements generalizing second joined with
  | nil => exact h
  | cons statement statements ih =>
      obtain ⟨hstatement, hrest⟩ := List.forall_mem_cons.mp hunchanged
      exact ih (h.readStatement hstatement) hrest

end Joined

/-! ### Relationships of both -/

/-- Every name stands for a table of one of the readings at most. -/
def Apart (first second : Progress) : Prop :=
  ∀ name, first.diagram.lookup? name = none ∨ second.diagram.lookup? name = none

/-- The tables of a reading and those of the rest have their places in a third one. -/
structure Placed (reading rest joined : Progress) (own other : Nat → Nat) : Prop where
  settled : reading.Settled
  restSettled : rest.Settled
  apart : Apart reading rest
  node? : ∀ node table, reading.diagram.node? node = some table →
    joined.diagram.node? (own node) = some table
  restNode? : ∀ node table, rest.diagram.node? node = some table →
    joined.diagram.node? (other node) = some table
  lookup? : ∀ name, reading.diagram.lookup? name = none →
    joined.diagram.lookup? name = (rest.diagram.lookup? name).map other
  restLookup? : ∀ name, rest.diagram.lookup? name = none →
    joined.diagram.lookup? name = (reading.diagram.lookup? name).map own

theorem Joined.placed_left {first second joined : Progress} (h : Joined first second joined)
    (hapart : Apart first second) :
    Placed first second joined id (first.diagram.pool.length + ·) := by
  refine ⟨h.left, h.right, hapart, ?_, ?_, ?_, ?_⟩
  · intro node table htable
    rw [id, h.node?_within (List.getElem?_eq_some_iff.mp htable).1, htable]
  · intro node table htable
    rw [h.node?_beyond, htable]
  · intro name hname
    rw [h.lookup?, hname, Option.or_none]
  · intro name hname
    rw [h.lookup?, hname, Option.map_id, Option.map_none, Option.none_or, id]

theorem Joined.placed_right {first second joined : Progress} (h : Joined first second joined)
    (hapart : Apart first second) :
    Placed second first joined (first.diagram.pool.length + ·) id := by
  obtain ⟨hleft, hright, -, hnode, hrest, hlookup, hrestLookup⟩ := h.placed_left hapart
  exact ⟨hright, hleft, fun name => (hapart name).symm, hrest, hnode, hrestLookup, hlookup⟩

/-- A key finds its table in its own reading, or else in the rest. -/
theorem Placed.relationshipOf? {reading rest joined : Progress} {own other : Nat → Nat}
    (h : Placed reading rest joined own other) {key : Er.ForeignKey} {source : Nat}
    (hsource : reading.diagram.lookup? key.sourceTable = some source) :
    Er.Diagram.relationshipOf? joined.diagram key
        = (Er.Diagram.relationshipOf? reading.diagram key).map (·.renumber own) ∨
      (Er.Diagram.relationshipOf? reading.diagram key = none ∧
        ∃ edge target, Er.Diagram.relationshipOf? joined.diagram key = some edge ∧
          rest.diagram.lookup? key.targetTable = some target ∧
          edge.source = own source ∧ edge.target = other target) := by
  obtain ⟨sourceTable, hsourceTable, -⟩ := h.settled.node?_of_lookup? hsource
  have hsource' : joined.diagram.lookup? key.sourceTable = some (own source) := by
    have hnone := (h.apart key.sourceTable).resolve_left (hsource ▸ Option.some_ne_none _)
    rw [h.restLookup? _ hnone, hsource]
    rfl
  have hsourceTable' := h.node? source sourceTable hsourceTable
  cases hother : rest.diagram.lookup? key.targetTable with
  | some target =>
      have hnone := (h.apart key.targetTable).resolve_right (hother ▸ Option.some_ne_none _)
      obtain ⟨targetTable, htargetTable, -⟩ := h.restSettled.node?_of_lookup? hother
      have htarget' : joined.diagram.lookup? key.targetTable = some (other target) := by
        rw [h.lookup? _ hnone, hother]
        rfl
      have htargetTable' := h.restNode? target targetTable htargetTable
      refine .inr ⟨Er.Diagram.relationshipOf?_of_unknown_target hnone, _, target,
        Er.Diagram.relationshipOf?_of_known hsource' htarget' hsourceTable' htargetTable', rfl, rfl,
        rfl⟩
  | none =>
      left
      have hlookup := h.restLookup? _ hother
      cases htarget : reading.diagram.lookup? key.targetTable with
      | none =>
          rw [htarget] at hlookup
          rw [Er.Diagram.relationshipOf?_of_unknown_target htarget,
            Er.Diagram.relationshipOf?_of_unknown_target hlookup]
          rfl
      | some target =>
          rw [htarget] at hlookup
          obtain ⟨targetTable, htargetTable, -⟩ := h.settled.node?_of_lookup? htarget
          have htargetTable' := h.node? target targetTable htargetTable
          rw [Er.Diagram.relationshipOf?_of_known hsource htarget hsourceTable htargetTable,
            Er.Diagram.relationshipOf?_of_known hsource' hlookup hsourceTable' htargetTable']
          rfl

theorem Settled.lt_of_lookup? {progress : Progress} (h : progress.Settled)
    {name : Text} {node : Nat} (hlookup : progress.diagram.lookup? name = some node) :
    node < progress.diagram.pool.length :=
  h.inPool.members node (h.names.of_lookup? hlookup).1

/-- Relationships end at tables that were read. -/
theorem Settled.ends_lt {progress : Progress} (h : progress.Settled) {key : Er.ForeignKey}
    {edge : Edge Er.Relationship}
    (hedge : Er.Diagram.relationshipOf? progress.diagram key = some edge) :
    edge.source < progress.diagram.pool.length ∧ edge.target < progress.diagram.pool.length := by
  have hcoherent := Er.Diagram.edgeCoherent_of_relationshipOf? h.names hedge
  exact ⟨h.inPool.members _ hcoherent.source.1, h.inPool.members _ hcoherent.target.1⟩

section Filtered

variable {reading rest joined : Progress} {own other : Nat → Nat} {key : Er.ForeignKey}
  {keep : Edge Er.Relationship → Bool}

/-- A test that passes the relationships of a reading, and none that leave it, leaves those that the
reading has alone. -/
theorem Placed.filter_eq_map (h : Placed reading rest joined own other)
    (hkey : ∃ source, reading.diagram.lookup? key.sourceTable = some source)
    (hown : ∀ edge : Edge Er.Relationship, edge.source < reading.diagram.pool.length →
      edge.target < reading.diagram.pool.length → keep (edge.renumber own) = true)
    (hcross : ∀ (edge : Edge Er.Relationship) (source target : Nat),
      source < reading.diagram.pool.length → target < rest.diagram.pool.length →
      edge.source = own source → edge.target = other target → keep edge = false) :
    (Er.Diagram.relationshipOf? joined.diagram key).filter keep
      = (Er.Diagram.relationshipOf? reading.diagram key).map (·.renumber own) := by
  obtain ⟨source, hsource⟩ := hkey
  rcases h.relationshipOf? hsource with hsame | ⟨hnone, edge, target, hedge, htarget, hfrom, hto⟩
  · rw [hsame]
    cases hmade : Er.Diagram.relationshipOf? reading.diagram key with
    | none => rfl
    | some edge =>
        obtain ⟨hfrom, hto⟩ := h.settled.ends_lt hmade
        exact Option.filter_some_pos (hown edge hfrom hto)
  · have hrefused := hcross edge source target (h.settled.lt_of_lookup? hsource)
      (h.restSettled.lt_of_lookup? htarget) hfrom hto
    rw [hnone, hedge]
    exact Option.filter_some_neg hrefused

/-- A test that passes no relationship from a table of a reading leaves none of its keys. -/
theorem Placed.filter_eq_none (h : Placed reading rest joined own other)
    (hkey : ∃ source, reading.diagram.lookup? key.sourceTable = some source)
    (hnever : ∀ (edge : Edge Er.Relationship) (source : Nat),
      source < reading.diagram.pool.length → edge.source = own source → keep edge = false) :
    (Er.Diagram.relationshipOf? joined.diagram key).filter keep = none := by
  obtain ⟨source, hsource⟩ := hkey
  have hrefused : ∀ edge place, place < reading.diagram.pool.length → edge.source = own place →
      Option.filter keep (some edge) = none := by
    intro edge place hplace hfrom
    exact Option.filter_some_neg (hnever edge place hplace hfrom)
  rcases h.relationshipOf? hsource with hsame | ⟨-, edge, target, hedge, -, hfrom, -⟩
  · rw [hsame]
    cases hmade : Er.Diagram.relationshipOf? reading.diagram key with
    | none => rfl
    | some edge => exact hrefused _ edge.source (h.settled.ends_lt hmade).1 rfl
  · rw [hedge]
    exact hrefused edge source (h.settled.lt_of_lookup? hsource) hfrom

end Filtered

namespace Joined

variable {first second joined : Progress}

/-- Of the relationships of a joined reading a choice may be made in each reading alone. -/
theorem filter_relationshipsOf (h : Joined first second joined)
    (keeps : Edge Er.Relationship → Bool) :
    (Er.Diagram.relationshipsOf joined.diagram joined.pending).filter keeps
      = first.pending.filterMap (fun key =>
        (Er.Diagram.relationshipOf? joined.diagram key).filter keeps)
        ++ second.pending.filterMap fun key =>
          (Er.Diagram.relationshipOf? joined.diagram key).filter keeps := by
  unfold Er.Diagram.relationshipsOf
  rw [h.pending, List.filterMap_append, List.filter_append, List.filter_filterMap,
    List.filter_filterMap]

/-- The relationships between tables of the first reading. -/
theorem relationships_within (h : Joined first second joined) (hapart : Apart first second)
    (hfirst : first.Recorded) (hsecond : second.Recorded) :
    (Er.Diagram.relationshipsOf joined.diagram joined.pending).filter (fun edge =>
        edge.source < first.diagram.pool.length ∧ edge.target < first.diagram.pool.length)
      = Er.Diagram.relationshipsOf first.diagram first.pending := by
  have hkept : ∀ key ∈ first.pending, (Er.Diagram.relationshipOf? joined.diagram key).filter
      (fun edge => edge.source < first.diagram.pool.length ∧
        edge.target < first.diagram.pool.length)
        = Er.Diagram.relationshipOf? first.diagram key := by
    intro key hkey
    refine ((h.placed_left hapart).filter_eq_map (hfirst.exists_lookup? h.left hkey) ?_ ?_).trans ?_
    · intro edge hfrom hto
      exact decide_eq_true ⟨hfrom, hto⟩
    · intro edge source target hsource htarget hfrom hto
      apply decide_eq_false
      omega
    · exact Option.map_id'
  have hdropped : ∀ key ∈ second.pending, (Er.Diagram.relationshipOf? joined.diagram key).filter
      (fun edge => edge.source < first.diagram.pool.length ∧
        edge.target < first.diagram.pool.length) = none := by
    intro key hkey
    apply (h.placed_right hapart).filter_eq_none (hsecond.exists_lookup? h.right hkey)
    intro edge source hsource hfrom
    apply decide_eq_false
    omega
  rw [h.filter_relationshipsOf, List.filterMap_congr hkept, List.filterMap_eq_nil_iff.mpr hdropped,
    List.append_nil, Er.Diagram.relationshipsOf]

/-- The relationships between tables of the second reading. -/
theorem relationships_beyond (h : Joined first second joined) (hapart : Apart first second)
    (hfirst : first.Recorded) (hsecond : second.Recorded) :
    (Er.Diagram.relationshipsOf joined.diagram joined.pending).filter (fun edge =>
        first.diagram.pool.length ≤ edge.source ∧ first.diagram.pool.length ≤ edge.target)
      = (Er.Diagram.relationshipsOf second.diagram second.pending).map
          (·.renumber (first.diagram.pool.length + ·)) := by
  have hdropped : ∀ key ∈ first.pending, (Er.Diagram.relationshipOf? joined.diagram key).filter
      (fun edge => first.diagram.pool.length ≤ edge.source ∧
        first.diagram.pool.length ≤ edge.target) = none := by
    intro key hkey
    apply (h.placed_left hapart).filter_eq_none (hfirst.exists_lookup? h.left hkey)
    intro edge source hsource hfrom
    apply decide_eq_false
    rw [id] at hfrom
    omega
  have hkept : ∀ key ∈ second.pending, (Er.Diagram.relationshipOf? joined.diagram key).filter
      (fun edge => first.diagram.pool.length ≤ edge.source ∧
        first.diagram.pool.length ≤ edge.target)
        = (Er.Diagram.relationshipOf? second.diagram key).map
            (·.renumber (first.diagram.pool.length + ·)) := by
    intro key hkey
    apply (h.placed_right hapart).filter_eq_map (hsecond.exists_lookup? h.right hkey)
    · intro edge hfrom hto
      exact decide_eq_true ⟨Nat.le_add_right _ _, Nat.le_add_right _ _⟩
    · intro edge source target hsource htarget hfrom hto
      apply decide_eq_false
      rw [id] at hto
      omega
  rw [h.filter_relationshipsOf, List.filterMap_congr hkept, List.filterMap_eq_nil_iff.mpr hdropped,
    List.nil_append, Er.Diagram.relationshipsOf, List.map_filterMap]

end Joined

end Progress

/-- **Scripts are modular.**  Where two scripts declare no name twice, and the second changes no
table of the first, the joined script shows what both show, and relationships between them. -/
theorem read_append (script other title : Text)
    (hnames : ∀ table ∈ (read script title none).diagram.nodes,
      ∀ otherTable ∈ (read other title none).diagram.nodes,
        table.name.lower ≠ otherTable.name.lower)
    (hchanges : ∀ statement ∈ statements other, ∀ changed changes,
      change? statement = some (changed, changes) →
      ∀ table ∈ (read script title none).diagram.nodes, table.name.lower ≠ changed.lower) :
    Er.Diagram.IsJoin (read script title none).diagram (read other title none).diagram
      (read (script ++ ';' :: other) title none).diagram := by
  have hsettled := settled_readStatements script title
  have hsettled' := settled_readStatements other title
  have hjoined : Progress.Joined (readStatements script title) (readStatements other title)
      (readStatements (script ++ ';' :: other) title) := by
    have hfold : readStatements (script ++ ';' :: other) title
        = (statements other).foldl Progress.readStatement (readStatements script title) := by
      unfold readStatements
      rw [statements_append, List.foldl_append]
    rw [hfold]
    apply (Progress.Joined.start hsettled title).foldl_readStatement
    intro statement hstatement changed changes hchange
    apply (hsettled.lookup?_eq_none_iff changed).mpr
    rw [← nodes_read_none]
    exact hchanges statement hstatement changed changes hchange
  have hapart : Progress.Apart (readStatements script title) (readStatements other title) := by
    intro name
    by_contra hboth
    obtain ⟨hfirst, hsecond⟩ := not_or.mp hboth
    obtain ⟨node, hnode⟩ := Option.ne_none_iff_exists'.mp hfirst
    obtain ⟨otherNode, hotherNode⟩ := Option.ne_none_iff_exists'.mp hsecond
    obtain ⟨table, htable, hname⟩ := hsettled.node?_of_lookup? hnode
    obtain ⟨otherTable, hotherTable, hotherName⟩ := hsettled'.node?_of_lookup? hotherNode
    rw [nodes_read_none, nodes_read_none] at hnames
    exact hnames table (List.mem_of_getElem? htable) otherTable (List.mem_of_getElem? hotherTable)
      (hname.trans hotherName.symm)
  have hrecorded := recorded_readStatements script title
  have hrecorded' := recorded_readStatements other title
  refine ⟨?_, ?_, ?_, ?_, ?_⟩
  · rw [nodes_read_none, nodes_read_none, nodes_read_none, hjoined.pool]
  · rw [nodes_read_none, nodes_read_none, ← List.length_append, ← hjoined.pool,
      (sameTables_read (script ++ ';' :: other) title none).members, hjoined.both.members]
  · rw [nodes_read_none, shownEdges_read, shownEdges_read]
    exact hjoined.relationships_within hapart hrecorded hrecorded'
  · rw [nodes_read_none, shownEdges_read, shownEdges_read]
    exact hjoined.relationships_beyond hapart hrecorded hrecorded'
  · intro edge hedge hwithin hbeyond
    rw [shownEdges_read] at hedge
    obtain ⟨key, -, hmade⟩ := List.mem_filterMap.mp hedge
    obtain ⟨hsource, htarget⟩ := hjoined.both.ends_lt hmade
    rw [hjoined.pool, List.length_append] at hsource htarget
    rw [nodes_read_none] at hwithin hbeyond ⊢
    rw [nodes_read_none]
    omega

/-- A script of customers. -/
def customerScript : Text := "CREATE TABLE customer (id INT)".toList

/-- A script of orders, with a reference to the customers. -/
def orderScript : Text :=
  ("CREATE TABLE orders (buyer INT);"
    ++ "ALTER TABLE orders ADD FOREIGN KEY (buyer) REFERENCES customer(id)").toList

theorem read_append_orders :
    Er.Diagram.IsJoin (read customerScript "Shop".toList none).diagram
        (read orderScript "Shop".toList none).diagram
        (read (customerScript ++ ';' :: orderScript) "Shop".toList none).diagram ∧
      (read orderScript "Shop".toList none).diagram.shownEdges = [] ∧
      (read (customerScript ++ ';' :: orderScript) "Shop".toList none).diagram.shownEdges
        = [{ source := 1, target := 0
             label :=
              { name := "orders_customer".toList, cardinality := .manyToMany
                sourceColumn := some 0, targetColumn := some 0 } }] := by
  have hunchanged : ∀ statement ∈ statements orderScript,
      ∀ table ∈ (read customerScript "Shop".toList none).diagram.nodes,
        (change? statement).map (·.1.lower) ≠ some table.name.lower := by
    decide +kernel
  refine ⟨?_, by decide +kernel, by decide +kernel⟩
  apply read_append customerScript orderScript "Shop".toList
  · decide +kernel
  · intro statement hstatement changed changes hchange table htable hname
    apply hunchanged statement hstatement table htable
    rw [hchange, hname]
    rfl

end Schema

end Diagrams
