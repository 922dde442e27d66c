/-
Every source is read into a diagram whose edges are resolved.

The first pass inserts one type for each head that it finds, the second changes the fields and
methods of those types and nothing else, and the third is told about in
`Diagrams.Proofs.Uml.Resolved`.  No text is too malformed for this: what is no head declares no
type, and what is no member is passed over.
-/
import Diagrams.Code.Reading
import Diagrams.Proofs.Uml.Resolved

namespace Diagrams.Code

open Uml.Diagram (Declares)

/-- What a head says about the type that it declares. -/
def headingOf (package : Option Text) (head : Match Slot) : Text × Uml.Kind × Option Text :=
  (head.text .name, kindOf head, package)

/-! ### Declarations -/

theorem declares_empty (title : Text) : Declares [] (.empty title) :=
  ⟨Graph.Consistent.empty rfl rfl rfl, fun _ => rfl, rfl, rfl,
    by simp [Uml.Diagram.empty], rfl, rfl⟩

theorem declares_insert {headings : List (Text × Uml.Kind × Option Text)} {diagram : Uml.Diagram}
    (h : Declares headings diagram) {type : Uml.Class} (htype : type.isStub = false) :
    Declares (headings ++ [type.heading]) (Graph.insert diagram type) := by
  refine ⟨h.consistent.insert type, h.key, Graph.members_insert_range type h.members, ?_, ?_,
    h.edges, h.edgePool⟩
  · rw [Graph.pool_insert, List.map_append, h.pool]
    rfl
  · intro other hother
    rcases List.mem_append.mp (show other ∈ diagram.pool ++ [type] from hother) with hold | hnew
    · exact h.declared other hold
    · rw [List.mem_singleton.mp hnew]
      exact htype

theorem declares_declare {headings : List (Text × Uml.Kind × Option Text)} {state : Declared}
    (h : Declares headings state.diagram) (package : Option Text) (diagonal : Option Diagonal)
    (head : Match Slot) :
    Declares (headings ++ [headingOf package head])
      (declare package diagonal state head).diagram := by
  obtain ⟨type, hinsert, hheading, hstub⟩ : ∃ type : Uml.Class,
      (declare package diagonal state head).diagram = Graph.insert state.diagram type ∧
        type.heading = headingOf package head ∧ type.isStub = false := ⟨_, rfl, rfl, rfl⟩
  rw [hinsert, ← hheading]
  exact declares_insert h hstub

/-- Every head declares one type, in the order of the heads. -/
theorem declares_foldl_declare {headings : List (Text × Uml.Kind × Option Text)} {state : Declared}
    (h : Declares headings state.diagram) (package : Option Text) (diagonal : Option Diagonal)
    (heads : List (Match Slot)) :
    Declares (headings ++ heads.map (headingOf package))
      (heads.foldl (declare package diagonal) state).diagram := by
  induction heads generalizing headings state with
  | nil => simpa using h
  | cons head heads ih =>
      have hnext := ih (declares_declare h package diagonal head)
      rwa [List.append_assoc] at hnext

/-! ### Members -/

/-- A member changes nothing of what the head of its type says. -/
theorem heading_addMember (owner : Uml.Class × List Event) (declaration : Declaration) :
    (addMember owner declaration).1.heading = owner.1.heading ∧
      (addMember owner declaration).1.isStub = owner.1.isStub := by
  obtain ⟨type, events⟩ := owner
  unfold addMember
  dsimp only
  split
  · exact ⟨rfl, rfl⟩
  · split
    · exact ⟨rfl, rfl⟩
    · split <;> exact ⟨rfl, rfl⟩

theorem heading_addMembers (type : Uml.Class) (body : Text) :
    (addMembers type body).1.heading = type.heading ∧
      (addMembers type body).1.isStub = type.isStub := by
  unfold addMembers
  refine List.foldlRecOn (motive := fun owner : Uml.Class × List Event =>
    owner.1.heading = type.heading ∧ owner.1.isStub = type.isStub) _ _ ⟨rfl, rfl⟩ ?_
  intro owner howner declaration _
  obtain ⟨hheading, hstub⟩ := heading_addMember owner declaration
  exact ⟨hheading.trans howner.1, hstub.trans howner.2⟩

theorem declares_modify {headings : List (Text × Uml.Kind × Option Text)} {diagram : Uml.Diagram}
    (h : Declares headings diagram) {node : Nat} {type filled : Uml.Class}
    (htype : diagram.node? node = some type) (hheading : filled.heading = type.heading)
    (hstub : filled.isStub = type.isStub) :
    Declares headings (Graph.modify diagram node fun _ => filled) := by
  have hget : diagram.pool[node]? = some type := htype
  refine ⟨h.consistent.modify ?_, h.key, ?_, ?_, ?_, h.edges, h.edgePool⟩
  · intro _ made hmade
    obtain rfl : type = made := Option.some.inj (htype.symm.trans hmade)
    exact congrArg Prod.fst hheading
  · show diagram.members = List.range (diagram.pool.modify node fun _ => filled).length
    rw [List.length_modify]
    exact h.members
  · rw [← h.pool]
    refine List.ext_getElem? fun place => ?_
    show ((diagram.pool.modify node fun _ => filled).map _)[place]? = _
    rw [List.getElem?_map, List.getElem?_map, List.getElem?_modify]
    by_cases hsame : node = place
    · subst hsame
      rw [hget]
      simpa using hheading
    · simp [hsame]
  · intro other hother
    obtain ⟨place, hplace⟩ := List.mem_iff_getElem?.mp hother
    change (Graph.modify diagram node fun _ => filled).node? place = some other at hplace
    rw [Graph.node?_modify] at hplace
    by_cases hsame : node = place
    · rw [if_pos hsame, ← hsame, htype] at hplace
      obtain rfl : filled = other := Option.some.inj hplace
      rw [hstub]
      exact h.declared type (List.mem_of_getElem? hget)
    · rw [if_neg hsame] at hplace
      exact h.declared other (List.mem_of_getElem? hplace)

theorem declares_fillBody {headings : List (Text × Uml.Kind × Option Text)}
    {state : Uml.Diagram × List Event} (h : Declares headings state.1) (body : Body) :
    Declares headings (fillBody state body).1 := by
  unfold fillBody
  split
  · rename_i type htype
    obtain ⟨hheading, hstub⟩ := heading_addMembers type body.text
    exact declares_modify h htype hheading hstub
  · exact h

/-- **Whatever a source contains, it is read into a diagram of the types that its heads
declare, with empty stubs for the types that they name, and every edge is made for the type
that its name stands for.** -/
theorem resolved_read (source title : Text) (diagonal : Option Diagonal) :
    Uml.Diagram.Resolved
      ((Grammar.typeHead.findAll (blankLiterals source)).map
        (headingOf (packageName? (blankLiterals source))))
      (read source title diagonal).diagram := by
  let headings := (Grammar.typeHead.findAll (blankLiterals source)).map
    (headingOf (packageName? (blankLiterals source)))
  have hempty : Declares [] (Declared.diagram { diagram := .empty title }) := declares_empty title
  have hdeclared : Declares headings (declarations (blankLiterals source) title diagonal).diagram :=
    declares_foldl_declare hempty (packageName? (blankLiterals source)) diagonal
      (Grammar.typeHead.findAll (blankLiterals source))
  have hfilled := List.foldlRecOn
    (motive := fun state : Uml.Diagram × List Event => Declares headings state.1)
    (declarations (blankLiterals source) title diagonal).bodies fillBody
    (b := (_, [])) hdeclared fun state hstate body _ => declares_fillBody hstate body
  exact hfilled.resolved _ _

end Diagrams.Code
