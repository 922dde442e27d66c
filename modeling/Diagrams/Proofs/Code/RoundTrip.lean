/-
A written source is read as what it stands for.

The first pass declares the types in the order of their heads and keeps their bodies, the
second fills each type from its own body, and the third adds stubs and edges.  Since all
names are different, each pass can be told by places alone: the type with a number has the
head and the body with that number.
-/
import Diagrams.Proofs.Code.Body
import Diagrams.Proofs.Code.Heads

namespace Diagrams.Code.Written

open Uml.Diagram (Numbered)

/-! ### Nothing is hidden -/

theorem lexemeAfter?_of_isOpen {c : Char} (h : IsOpen c) (rest : Text) :
    lexemeAfter? c rest = none := by
  have hquote : c ≠ '"' ∧ c ≠ '\x27' := by
    constructor <;> rintro rfl <;> exact absurd h.quote (by decide)
  unfold lexemeAfter?
  rw [if_neg h.comment, if_neg hquote.1, if_neg hquote.2]

/-- A source without comments and literals stays as it is. -/
theorem blankLiterals_eq_self {source : Text} (h : ∀ c ∈ source, IsOpen c) :
    blankLiterals source = source := by
  induction source with
  | nil => rw [blankLiterals, lexemes]; rfl
  | cons c source ih =>
      obtain ⟨hc, hsource⟩ := List.forall_mem_cons.mp h
      have hrest : (lexemes source).flatMap Lexeme.blanked = source := ih hsource
      have hlexemes : lexemes (c :: source) = ⟨.code, [c]⟩ :: lexemes source := by
        rw [lexemes, lexemeAfter?_of_isOpen hc]
      rw [blankLiterals, hlexemes, List.flatMap_cons, hrest]
      rfl

/-! ### What is declared -/

namespace Items

variable {items : Items} {owner : Option Text}

/-- Every declared type is well-formed, and so is its body. -/
theorem wellFormed_of_mem_declared (h : items.WellFormed owner) {head : Head} {inside : Items}
    (hmem : (head, inside) ∈ items.declared) :
    head.WellFormed ∧ inside.WellFormed (some head.name) := by
  induction h with
  | done => exact absurd hmem List.not_mem_nil
  | field _ _ _ ih => exact ih hmem
  | method _ _ _ _ ih => exact ih hmem
  | nested _ first body _ ihInside ih =>
      rcases List.mem_cons.mp hmem with heq | hmem
      · obtain ⟨rfl, rfl⟩ := Prod.mk.inj heq
        exact ⟨first, body⟩
      · rcases List.mem_append.mp hmem with hinside | hothers
        · exact ihInside hinside
        · exact ih hothers

end Items

/-- The edges from a type to those that one of the clauses in its head names. -/
def typeEdges (types : Head → List TypeName) (head : Head) : List Uml.TypeEdge :=
  (types head).map fun type => { source := head.name, target := type.name }

section

variable {package : Option Text} {diagonal : Option Diagonal} {state : Declared}
    {found : Match Slot}
  {head : Head} {inside : Items}

theorem kindOf_of_isHeadOf (h : IsHeadOf found (head, inside)) : kindOf found = head.kind := by
  have hkind : ∀ kind : Uml.Kind, (Uml.Kind.ofWord? kind.word.toList).getD .ordinary = kind := by
    intro kind
    cases kind <;> decide
  rw [kindOf, h.keyword, hkind]

theorem edgesFrom_of_list {list : Option Text} {types : List TypeName}
    (h : ∀ type ∈ types, type.WellFormed) (hlist : list.getD [] = typeNames types) (source : Text) :
    edgesFrom source list = types.map fun type => { source, target := type.name } := by
  rw [edgesFrom, hlist, typeList_typeNames h, List.map_map]
  rfl

/-- A head declares its type, with the body that follows. -/
theorem declare_eq (h : IsHeadOf found (head, inside)) (hhead : head.WellFormed)
    (hinside : inside.WellFormed (some head.name)) :
    (declare package diagonal state found).diagram
        = Graph.insert state.diagram
          (head.bare package (position diagonal state.diagram.members.length)) ∧
      (declare package diagonal state found).bodies
        = state.bodies ++ [⟨state.diagram.nextNode, inside.text⟩] ∧
      (declare package diagonal state found).supertypes
        = state.supertypes ++ typeEdges Head.supertypes head ∧
      (declare package diagonal state found).interfaces
        = state.interfaces ++ typeEdges Head.interfaces head := by
  obtain ⟨after, hrest⟩ := h.rest
  have hbody : Brackets.curly.body? ('\x7b' :: found.rest) = some (inside.text, after) := by
    rw [hrest]
    exact Brackets.body?_of_nested Brackets.apart_curly (Items.isClosed hinside) after
  have hname : found.text .name = head.name := h.name
  have hsupertypes := edgesFrom_of_list hhead.supertypes h.supertypes head.name
  have hinterfaces := edgesFrom_of_list hhead.interfaces h.interfaces head.name
  unfold declare
  rw [hname, hbody, kindOf_of_isHeadOf h]
  exact ⟨rfl, rfl, congrArg (state.supertypes ++ ·) hsupertypes,
    congrArg (state.interfaces ++ ·) hinterfaces⟩

end

/-! ### The first pass -/

/-- The class that a numbered declaration stands for, without its members. -/
def bareOf (package : Option Text) (diagonal : Option Diagonal) (item : (Head × Items) × Nat) :
    Uml.Class := item.1.1.bare package (position diagonal item.2)

/-- The body of a numbered declaration. -/
def bodyOf (item : (Head × Items) × Nat) : Body := ⟨item.2, item.1.2.text⟩

section

variable {package : Option Text} {diagonal : Option Diagonal}

/-- The heads of a source declare its types one after the other. -/
theorem foldl_declare {found : List (Match Slot)} {declared : List (Head × Items)}
    (h : List.Forall₂ IsHeadOf found declared)
    (hwell : ∀ item ∈ declared, item.1.WellFormed ∧ item.2.WellFormed (some item.1.name))
    {state : Declared} {number : Nat} (hmembers : state.diagram.members.length = number)
    (hpool : state.diagram.pool.length = number) :
    (found.foldl (declare package diagonal) state).diagram
        = ((declared.zipIdx number).map (bareOf package diagonal)).foldl Graph.insert
          state.diagram ∧
      (found.foldl (declare package diagonal) state).bodies
        = state.bodies ++ (declared.zipIdx number).map bodyOf ∧
      (found.foldl (declare package diagonal) state).supertypes
        = state.supertypes ++ declared.flatMap (fun item => typeEdges Head.supertypes item.1) ∧
      (found.foldl (declare package diagonal) state).interfaces
        = state.interfaces ++ declared.flatMap (fun item => typeEdges Head.interfaces item.1) := by
  induction h generalizing state number with
  | nil => simp
  | @cons match₁ item found declared hfirst _ ih =>
      obtain ⟨⟨hhead, hinside⟩, hwell⟩ := List.forall_mem_cons.mp hwell
      obtain ⟨hdiagram, hbodies, hsupertypes, hinterfaces⟩ :=
        @declare_eq package diagonal state _ _ _ hfirst hhead hinside
      have hnext : state.diagram.nextNode = number := hpool
      have hmembers' : (declare package diagonal state match₁).diagram.members.length
          = number + 1 := by
        rw [hdiagram, Graph.members_insert, List.length_append, hmembers]
        rfl
      have hpool' : (declare package diagonal state match₁).diagram.pool.length = number + 1 := by
        rw [hdiagram, Graph.pool_insert, List.length_append, hpool]
        rfl
      obtain ⟨hrest, hrestBodies, hrestSupertypes, hrestInterfaces⟩ := ih hwell hmembers' hpool'
      rw [List.foldl_cons, List.zipIdx_cons, List.map_cons, List.map_cons, List.foldl_cons,
        List.flatMap_cons, List.flatMap_cons, hrest, hrestBodies, hrestSupertypes, hrestInterfaces,
        hdiagram, hbodies, hsupertypes, hinterfaces, hmembers, hnext]
      simp [bareOf, bodyOf]

/-! ### The second pass -/

/-- The class that a numbered declaration stands for. -/
def fullOf (package : Option Text) (diagonal : Option Diagonal) (item : (Head × Items) × Nat) :
    Uml.Class := classOf package (position diagonal item.2) item.1.1 item.1.2

theorem modify_append_cons {α : Type} (front rest : List α) (item : α) (change : α → α) :
    (front ++ item :: rest).modify front.length change = front ++ change item :: rest := by
  induction front with
  | nil => rfl
  | cons first front ih => simp [ih]

/-- Every type is filled from its own body. -/
theorem foldl_fillBody {declared : List (Head × Items)}
    (hwell : ∀ item ∈ declared, item.2.WellFormed (some item.1.name)) {number : Nat}
    {front : List Uml.Class} (hnumber : front.length = number) (diagram : Uml.Diagram)
    (hpool : diagram.pool = front ++ (declared.zipIdx number).map (bareOf package diagonal))
    (events : List Event) :
    ((declared.zipIdx number).map bodyOf).foldl fillBody (diagram, events)
      = ({ diagram with pool := front ++ (declared.zipIdx number).map (fullOf package diagonal) },
          events) := by
  induction declared generalizing number front diagram with
  | nil =>
      rw [List.zipIdx_nil, List.map_nil, List.append_nil] at hpool
      simp [← hpool]
  | cons item declared ih =>
      obtain ⟨hitem, hwell⟩ := List.forall_mem_cons.mp hwell
      subst hnumber
      let bare := bareOf package diagonal (item, front.length)
      let full := fullOf package diagonal (item, front.length)
      let rest := (declared.zipIdx (front.length + 1)).map (bareOf package diagonal)
      have hnode : diagram.node? front.length = some bare := by
        show diagram.pool[front.length]? = some bare
        rw [hpool]
        simp [List.zipIdx_cons, bare]
      have hmembers : addMembers bare item.2.text = (full, []) := Items.addMembers_text hitem rfl
      have hfill : fillBody (diagram, events) ⟨front.length, item.2.text⟩
          = ({ diagram with pool := (front ++ [full]) ++ rest }, events) := by
        have hmodify : diagram.modify front.length (fun _ => full)
            = { diagram with pool := (front ++ [full]) ++ rest } := by
          rw [Graph.modify, hpool, List.zipIdx_cons, List.map_cons, modify_append_cons]
          simp [rest]
        unfold fillBody
        rw [hnode]
        simp only [hmembers, hmodify, List.append_nil]
      have hlength : (front ++ [full]).length = front.length + 1 := by simp
      have hnext := ih hwell hlength { diagram with pool := (front ++ [full]) ++ rest } rfl
      rw [List.zipIdx_cons, List.map_cons, List.map_cons, List.foldl_cons]
      have hfirst :=
        congrArg (((declared.zipIdx (front.length + 1)).map bodyOf).foldl fillBody ·) hfill
      refine hfirst.trans ?_
      rw [hnext]
      simp [full]

end

/-! ### The third pass -/

theorem zipIdx_zipIdx {α : Type} (items : List α) (number : Nat) :
    (items.zipIdx number).zipIdx number = (items.zipIdx number).map fun item => (item, item.2) := by
  induction items generalizing number with
  | nil => rfl
  | cons item items ih => rw [List.zipIdx_cons, List.zipIdx_cons, ih, List.map_cons]

namespace Items

variable {items : Items} {package : Option Text} {diagonal : Option Diagonal}

theorem map_name_bareOf (items : Items) (package : Option Text) (diagonal : Option Diagonal) :
    (items.declared.zipIdx.map (bareOf package diagonal)).map Uml.Class.name = items.names := by
  have hitems := List.zipIdx_map_fst 0 items.declared
  rw [names, ← hitems, List.map_map, List.map_map, hitems]
  rfl

theorem map_name_fullOf (items : Items) (package : Option Text) (diagonal : Option Diagonal) :
    (items.declared.zipIdx.map (fullOf package diagonal)).map Uml.Class.name = items.names := by
  rw [← map_name_bareOf items package diagonal, List.map_map, List.map_map]
  rfl

/-- A declared type has the place of its declaration. -/
theorem idxOf_allNames (h : items.names.Nodup) {head : Head} {inside : Items} {number : Nat}
    (hitem : ((head, inside), number) ∈ items.declared.zipIdx) :
    items.allNames.idxOf head.name = number := by
  have hget : items.names[number]? = some head.name := by
    rw [names, List.getElem?_map, List.mem_zipIdx_iff_getElem?.mp hitem]
    rfl
  obtain ⟨hlt, hname⟩ := List.getElem?_eq_some_iff.mp hget
  rw [allNames, List.idxOf_append_of_mem (hname ▸ List.getElem_mem hlt), ← hname]
  exact h.idxOf_getElem number hlt

/-- The edges that the heads of the declared types ask for in one of their clauses. -/
def typeEdges (items : Items) (types : Head → List TypeName) : List Uml.TypeEdge :=
  items.declared.flatMap fun item => Written.typeEdges types item.1

/-- The edges that the heads ask for lead from place to place. -/
theorem map_edgeBetween (h : items.names.Nodup) (role : Uml.Role) (types : Head → List TypeName) :
    (items.typeEdges types).map (Uml.Diagram.edgeBetween items.allNames role)
      = items.clauseEdges role.relationshipKind types := by
  have hitems := List.zipIdx_map_fst 0 items.declared
  rw [typeEdges, List.map_flatMap, clauseEdges, ← hitems, List.flatMap_map, hitems]
  refine List.flatMap_congr ?_
  rintro ⟨⟨head, inside⟩, number⟩ hitem
  rw [Written.typeEdges, List.map_map]
  refine List.map_congr_left fun type _ => ?_
  show Uml.Diagram.edgeBetween items.allNames role ⟨head.name, type.name⟩ = _
  rw [Uml.Diagram.edgeBetween, idxOf_allNames h hitem]

theorem map_target_typeEdges (items : Items) (types : Head → List TypeName) :
    (items.typeEdges types).map Uml.TypeEdge.target
      = items.declared.flatMap fun item => (types item.1).map TypeName.name := by
  rw [typeEdges, List.map_flatMap]
  refine List.flatMap_congr fun item _ => ?_
  rw [Written.typeEdges, List.map_map]
  rfl

theorem source_mem_names (items : Items) (types : Head → List TypeName) :
    ∀ edge ∈ items.typeEdges types, edge.source ∈ items.names := by
  intro edge hedge
  obtain ⟨item, hitem, hedge⟩ := List.mem_flatMap.mp hedge
  obtain ⟨type, -, rfl⟩ := List.mem_map.mp hedge
  exact List.mem_map_of_mem hitem

/-- The fields of the declared types give rise to the compositions; stubs have no fields. -/
theorem compositions_eq {diagram : Uml.Diagram} (h : Numbered items.allNames diagram)
    (hpool : diagram.pool = items.classes package diagonal) :
    diagram.compositions = items.compositions := by
  have hstubs : ∀ number, ((items.missingSupertypes.map (Uml.Class.stub · .ordinary) ++
      items.missingInterfaces.map (Uml.Class.stub · .interface)).zipIdx number).flatMap
        (fun item => item.1.fields.filterMap fun field =>
          if !Uml.isCommonType field.type && items.allNames.contains field.type then
            some
              ({ source := item.2, target := items.allNames.idxOf field.type
                 label := { kind := .composition, targetLabel := some ['1'] } }
                : Edge Uml.Relationship)
          else none) = [] := by
    intro number
    rw [List.flatMap_eq_nil_iff]
    rintro ⟨type, place⟩ hitem
    have hmem := List.fst_mem_of_mem_zipIdx hitem
    have hfields : type.fields = [] := by
      rcases List.mem_append.mp hmem with hstub | hstub
      all_goals
        obtain ⟨name, -, rfl⟩ := List.mem_map.mp hstub
        rfl
    show type.fields.filterMap _ = []
    rw [hfields, List.filterMap_nil]
  have hclasses : items.classes package diagonal
      = items.declared.zipIdx.map (fullOf package diagonal) ++
        (items.missingSupertypes.map (Uml.Class.stub · .ordinary) ++
          items.missingInterfaces.map (Uml.Class.stub · .interface)) := rfl
  rw [h.compositions_eq, hpool, hclasses, List.zipIdx_append, List.flatMap_append, hstubs,
    List.append_nil, List.zipIdx_map, zipIdx_zipIdx, List.map_map, List.flatMap_map]
  rfl

end Items

/-! ### The package -/

/-- A source without the word for it names no package. -/
theorem packageName?_eq_none {source : Text} (h : Avoids ["package"] source) :
    packageName? source = none := by
  cases hfound : Grammar.package.find? source with
  | none => rw [packageName?, hfound]; rfl
  | some found =>
      have hsome : (Grammar.package.findFrom? none 0 source).isSome = true := by
        rw [show Grammar.package.findFrom? none 0 source = some found from hfound]
        rfl
      obtain ⟨near, far, rfl, mid, hmid⟩ := Pattern.findFrom?_isSome_iff.mp hsome
      obtain ⟨_, hline, hmid⟩ := Pattern.mem_reached_all_cons.mp hmid
      obtain ⟨hstart, hsame⟩ := Pattern.mem_reached_lineStart.mp hline
      rw [hsame] at hmid
      obtain ⟨_, hspaces, hmid⟩ := Pattern.mem_reached_all_cons.mp hmid
      obtain ⟨blanks, rest, hrest, hblank, rfl⟩ := Pattern.mem_reached_many.mp hspaces
      obtain ⟨_, hword, hmid⟩ := Pattern.mem_reached_all_cons.mp hmid
      obtain ⟨behind, hbehind, rfl⟩ := Pattern.mem_reached_exactly.mp hword
      obtain ⟨_, hgap, -⟩ := Pattern.mem_reached_all_cons.mp hmid
      obtain ⟨c, hc, hblank'⟩ := Pattern.Opens.atLeastOne _ _ hgap
      have hsplit : far = blanks ++ ("package".toList ++ behind) := by
        rw [show far = blanks ++ rest from hrest,
          show rest = "package".toList ++ behind from hbehind]
      rw [hsplit, ← List.append_assoc] at h
      refine (h.not_mem (List.mem_singleton_self _)
        (isWordChar_of_isLetters (by decide)) ?_ ?_).elim
      · intro d hd
        rw [List.getLast?_append] at hd
        rcases Option.or_eq_some_iff.mp hd with hlast | ⟨-, hlast⟩
        · exact isWordChar_of_isBlank (hblank d (List.mem_of_getLast? hlast))
        · have hfeed : (d == '\n') = true := by
            simpa [Place.atLineStart, hlast] using hstart
          rw [beq_iff_eq.mp hfeed]
          decide
      · intro d hd
        obtain rfl : c = d := Option.mem_unique hc hd
        exact isWordChar_of_isBlank hblank'

/-! ### The whole source -/

namespace Items

variable (items : Items) (package : Option Text) (diagonal : Option Diagonal) (title : Text)

/-- The declared types in their places, each filled from its body. -/
def filled : Uml.Diagram :=
  { (items.declared.zipIdx.map (bareOf package diagonal)).foldl Graph.insert
      (Uml.Diagram.empty title) with
    pool := items.declared.zipIdx.map (fullOf package diagonal) }

/-- The declared types with stubs for the missing ones, and the edges between them. -/
def resolved : Uml.Diagram :=
  ((items.filled package diagonal title).resolveTypeEdges (items.typeEdges Head.supertypes)
    (items.typeEdges Head.interfaces)).1

variable {items package diagonal title}

/-- The passes over a written source find its types, fill them, and resolve their edges. -/
theorem diagram_read (h : items.WellFormed none) :
    (read items.text title diagonal).diagram
      = (items.resolved (packageName? items.text) diagonal title).inferCompositions := by
  let package := packageName? items.text
  let bares := items.declared.zipIdx.map (bareOf package diagonal)
  have hwell : ∀ item ∈ items.declared, item.1.WellFormed ∧ item.2.WellFormed (some item.1.name) :=
    fun item hitem => wellFormed_of_mem_declared h hitem
  obtain ⟨hdiagram, hbodies, hsupertypes, hinterfaces⟩ := @foldl_declare package diagonal _ _
    (forall₂_findAll h) hwell { diagram := .empty title } 0 rfl rfl
  have hfill := @foldl_fillBody package diagonal items.declared
    (fun item hitem => (hwell item hitem).2) 0 [] rfl
    (bares.foldl Graph.insert (Uml.Diagram.empty title))
    (Graph.pool_foldl_insert (Uml.Diagram.empty title) bares) []
  show Uml.Diagram.inferCompositions (Uml.Diagram.resolveTypeEdges
    (((Code.declarations (blankLiterals items.text) title diagonal).bodies.foldl fillBody
      ((Code.declarations (blankLiterals items.text) title diagonal).diagram, [])).1)
    (Code.declarations (blankLiterals items.text) title diagonal).supertypes
    (Code.declarations (blankLiterals items.text) title diagonal).interfaces).1 = _
  rw [blankLiterals_eq_self (isOpen h), Code.declarations, hdiagram, hbodies,
    hsupertypes, hinterfaces]
  exact congrArg (fun state : Uml.Diagram × List Event =>
    (state.1.resolveTypeEdges _ _).1.inferCompositions) hfill

theorem numbered_filled (hnames : items.names.Nodup) :
    Numbered items.names (items.filled package diagonal title) := by
  have hempty : Numbered [] (Uml.Diagram.empty title) :=
    ⟨fun _ => rfl, rfl, rfl, rfl, fun _ => rfl⟩
  have hnodup :
      ([] ++ (items.declared.zipIdx.map (bareOf package diagonal)).map Uml.Class.name).Nodup := by
    rw [List.nil_append, map_name_bareOf]
    exact hnames
  have hinserted := hempty.foldl_insert hnodup
  rw [List.nil_append, map_name_bareOf] at hinserted
  exact hinserted.refill (map_name_fullOf items package diagonal)

/-- The missing types get their stubs, and each clause of a head its edges. -/
theorem numbered_resolved (hnames : items.names.Nodup) :
    Numbered items.allNames (items.resolved package diagonal title) ∧
      (items.resolved package diagonal title).title = title ∧
      (items.resolved package diagonal title).pool = items.classes package diagonal ∧
      (items.resolved package diagonal title).edgePool
        = items.clauseEdges .inheritance Head.supertypes ++
          items.clauseEdges .implementation Head.interfaces := by
  have hmissing : Uml.newNames items.names
      ((items.typeEdges Head.supertypes).map Uml.TypeEdge.target) = items.missingSupertypes := by
    rw [map_target_typeEdges]
    rfl
  have hmissing' : Uml.newNames (items.names ++ items.missingSupertypes)
      ((items.typeEdges Head.interfaces).map Uml.TypeEdge.target) = items.missingInterfaces := by
    rw [map_target_typeEdges]
    rfl
  have hall : items.names ++ (items.missingSupertypes ++ items.missingInterfaces)
      = items.allNames := rfl
  obtain ⟨htitle, -, hnoEdges⟩ := Graph.frame_foldl_insert (Uml.Diagram.empty title)
    (items.declared.zipIdx.map (bareOf package diagonal))
  obtain ⟨hnumbered, htitle', hpool, hedges⟩ :=
    (@numbered_filled items package diagonal title hnames).resolveTypeEdges
      (source_mem_names items Head.supertypes) (source_mem_names items Head.interfaces)
      hmissing hmissing' hall
  rw [map_edgeBetween hnames, map_edgeBetween hnames] at hedges
  exact ⟨hnumbered, htitle'.trans htitle, hpool, hedges.trans (congrArg (· ++ _) hnoEdges)⟩

end Items

/-- **A written source is read into the classes and edges that it stands for**: the declared
types in the order of their heads, each with its own fields and methods and no others, then a
stub for each type that is named and not declared, and the edges to supertypes, to interfaces
and to the types of fields. -/
theorem read_text {items : Items} (h : items.WellFormed none) (hnames : items.names.Nodup)
    (title : Text) (diagonal : Option Diagonal) :
    let diagram := (read items.text title diagonal).diagram
    let classes := items.classes (packageName? items.text) diagonal
    diagram.title = title ∧ diagram.members = List.range classes.length ∧ diagram.nodes = classes ∧
      diagram.shownEdges = items.edges := by
  let resolved := items.resolved (packageName? items.text) diagonal title
  obtain ⟨hnumbered, htitle, hpool, hedges⟩ :=
    @Items.numbered_resolved items (packageName? items.text) diagonal title hnames
  have hframe := Uml.Diagram.inferCompositions_eq resolved
  dsimp only
  rw [Items.diagram_read h, ← hpool]
  refine ⟨?_, ?_, ?_, ?_⟩
  · rw [hframe]
    exact htitle
  · rw [hframe]
    exact hnumbered.members
  · rw [hframe]
    exact Uml.Diagram.nodes_of_members hnumbered.members
  · rw [Uml.Diagram.shownEdges_inferCompositions hnumbered.edges,
      Items.compositions_eq hnumbered hpool, hedges, List.append_assoc]
    rfl

/-- A shop that finds its items, with a type of its own inside. -/
def shop : Items :=
  .nested [] { modifiers := ["public"], name := "Shop".toList
               supertypes := [{ name := "Base".toList }]
               interfaces := [{ name := "Api".toList, arguments := some "M<K,V>".toList }] }
    (.field ['\n'] { visibility := .privateAccess, isStatic := true
                     type := { base := { name := "List".toList, arguments := some "Item".toList }
                               dimensions := 1 }
                     name := "items".toList }
    (.field ['\n'] { type := { base := { name := "Item".toList } }, name := "next".toList }
    (.method ['\n'] { visibility := .publicAccess, type := { base := { name := "Item".toList } }
                      name := "find".toList
                      parameters := [{ type := { base := { name := "int".toList } }
                                       name := "code".toList }]
                      block := some " if (code) { go(); } ".toList }
    (.nested ['\n'] { kind := .interface, name := "Item".toList }
      (.method [' '] { isAbstract := true, type := { base := { name := "void".toList } }
                       name := "stop".toList } (.done [' ']))
    (.done ['\n'])))))
  (.nested ['\n'] { kind := .enumeration, name := "Base".toList } (.done [' ']) (.done []))

theorem isBlock_shop : IsBlock " if (code) { go(); } ".toList := by
  have hfront : IsClosed " if (code) ".toList :=
    .of_forall (List.all_iff_forall_prop.mp (by decide))
  have hinside : IsClosed " go(); ".toList := .of_forall (List.all_iff_forall_prop.mp (by decide))
  have hbehind : IsClosed [' '] := .of_forall (List.all_iff_forall_prop.mp (by decide))
  exact ⟨hfront.append (.group hinside hbehind), List.all_iff_forall_prop.mp (by decide), by decide⟩

theorem wellFormed_shop : shop.WellFormed none := by
  have hblank : ∀ {gap : Text}, gap.all isBlank = true → ∀ c ∈ gap, isBlank c = true :=
    fun h => List.all_eq_true.mp h
  have hnone : ∀ {P : Text → Prop}, ∀ text ∈ (none : Option Text), P text :=
    fun text h => absurd h (Option.not_mem_none text)
  have hsome : ∀ {P : Text → Prop} {known : Text}, P known → ∀ text ∈ some known, P text := by
    intro P known h text htext
    exact Option.some.inj htext ▸ h
  have hknown : IsKnown .publicAccess ∧ IsKnown .privateAccess ∧ IsKnown .packageAccess :=
    ⟨fun _ h => Uml.Visibility.noConfusion h, fun _ h => Uml.Visibility.noConfusion h,
      fun _ h => Uml.Visibility.noConfusion h⟩
  have hitem : IsName "Item".toList := by decide
  have hitems : IsTypeList "Item".toList := by
    have hplain := IsTypeList.plain 0 hitem
    rwa [squares, List.append_nil] at hplain
  have harguments : IsArguments "M<K,V>".toList :=
    .plain (.inl (by decide)) (.group (.plain (.inl (by decide)) (.plain (.inr (.inl rfl))
      (.plain (.inl (by decide)) .nil))) .nil)
  refine .nested (hblank rfl) ⟨by decide, by decide, ?_, ?_⟩ ?_ ?_
  · exact List.forall_mem_singleton.mpr ⟨by decide, hnone⟩
  · exact List.forall_mem_singleton.mpr ⟨by decide, hsome ⟨harguments, by decide⟩⟩
  · refine .field (hblank rfl) ⟨hknown.2.1, ⟨by decide, hsome hitems⟩, by decide⟩ ?_
    refine .field (hblank rfl) ⟨hknown.2.2, ⟨hitem, hnone⟩, by decide⟩ ?_
    refine .method (hblank rfl) ⟨hknown.1, ⟨hitem, hnone⟩, by decide, ?_, hsome isBlock_shop⟩ ?_ ?_
    · exact List.forall_mem_singleton.mpr ⟨⟨by decide, hnone⟩, by decide⟩
    · exact hsome (by decide)
    · refine .nested (hblank rfl) ⟨by decide, hitem, by simp, by simp⟩ ?_ (.done (hblank rfl))
      exact .method (hblank rfl) ⟨hknown.2.2, ⟨by decide, hnone⟩, by decide, by simp, hnone⟩
        (hsome (by decide)) (.done (hblank rfl))
  · exact .nested (hblank rfl) ⟨by decide, by decide, by simp, by simp⟩ (.done (hblank rfl))
      (.done (hblank rfl))

/-- What the shop is read as. -/
theorem read_text_shop : shop.WellFormed none ∧ shop.names.Nodup ∧
    (read shop.text "Shop".toList none).diagram.nodes = shop.classes none none ∧
    (read shop.text "Shop".toList none).diagram.shownEdges = [
      { source := 0, target := 2, label := { kind := .inheritance } },
      { source := 0, target := 3, label := { kind := .implementation } },
      { source := 0, target := 1
        label := { kind := .composition, targetLabel := some ['1'] } }] := by
  have hnames : shop.names.Nodup := by decide
  have hpackage : packageName? shop.text = none := packageName?_eq_none (by decide)
  have hedges : shop.edges = [
      { source := 0, target := 2, label := { kind := .inheritance } },
      { source := 0, target := 3, label := { kind := .implementation } },
      { source := 0, target := 1
        label := { kind := .composition, targetLabel := some ['1'] } }] := by decide
  obtain ⟨-, -, hnodes, hshown⟩ := read_text wellFormed_shop hnames "Shop".toList none
  rw [hpackage] at hnodes
  exact ⟨wellFormed_shop, hnames, hnodes, hshown.trans hedges⟩

end Diagrams.Code.Written
