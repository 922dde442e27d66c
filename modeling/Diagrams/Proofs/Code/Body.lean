/-
The members of a written body.

A body is cut at the semicolons and blocks of its own level: a block is passed over with
everything in it, so what stands inside a declared type or a method is no member of the body
around it.  The head of a declared type is cut out like that of a method, but it has no
round brackets and is read as none.
-/
import Diagrams.Code.Reading
import Diagrams.Proofs.Code.Cutting
import Diagrams.Proofs.Code.Members
import Diagrams.Proofs.Code.SourceText

namespace Diagrams.Code.Written

/-! ### Cutting -/

section

variable {front inside rest : Text}

theorem declarationsAfter_append (h : ∀ c ∈ front, IsInner c) (before rest : Text) :
    declarationsAfter before (front ++ rest)
      = declarationsAfter (front.reverse ++ before) rest := by
  have hplain : ∀ c ∈ front, c ≠ ';' ∧ c ≠ '\x7b' ∧ c ≠ '\x7d' :=
    fun c hc => ⟨(h c hc).semicolon, (h c hc).opening, (h c hc).closing⟩
  exact declarationsAfter_plain hplain before rest

/-- A block is passed over. -/
theorem declarationsAfter_block (before rest : Text) (hequals : '=' ∉ before)
    (h : IsClosed inside) :
    declarationsAfter before ('\x7b' :: (inside ++ '\x7d' :: rest))
      = ⟨Text.trim before.reverse, .block⟩ :: declarationsAfter [] rest := by
  have hclosed : Brackets.curly.closing? ('\x7b' :: (inside ++ ['\x7d'])) 0
      = some (inside.length + 1) := by
    rw [Nat.add_comm]
    exact Brackets.closing?_of_nested Brackets.apart_curly h []
  exact declarationsAfter_closed hclosed hequals rest

end

/-- What ends the declaration of a method. -/
def Method.terminator (method : Method) : Terminator :=
  if method.block.isSome then .block else .semicolon

/-- The declarations of a body, as they are cut. -/
def Items.declarations : Items → List Declaration
  | done _ => []
  | field _ first others => ⟨first.text, .semicolon⟩ :: others.declarations
  | method _ first others => ⟨first.text, first.terminator⟩ :: others.declarations
  | nested _ head _ others => ⟨head.text, .block⟩ :: others.declarations

section

variable {gap text rest : Text} (hgap : ∀ c ∈ gap, isBlank c = true)
  (hinner : ∀ c ∈ text, IsInner c) (hsolid : Solid text)

include hgap hinner hsolid

theorem declarationsAfter_member : declarationsAfter [] (gap ++ (text ++ ';' :: rest))
    = ⟨text, .semicolon⟩ :: declarationsAfter [] rest := by
  have htrim := Text.trim_between hgap (List.forall_mem_nil _) hsolid.head? hsolid.getLast?
  rw [declarationsAfter_append (isInner_of_blank hgap), declarationsAfter_append hinner,
    declarationsAfter_semicolon]
  simpa using htrim

theorem declarationsAfter_blockMember {inside : Text} (h : IsClosed inside) :
    declarationsAfter [] (gap ++ (text ++ ' ' :: '\x7b' :: (inside ++ '\x7d' :: rest)))
      = ⟨text, .block⟩ :: declarationsAfter [] rest := by
  have hspace : ∀ c ∈ [' '], isBlank c = true := List.forall_mem_singleton.mpr (by decide)
  have hbefore : ∀ c ∈ gap ++ (text ++ [' ']), IsInner c := by
    refine List.forall_mem_append.mpr ⟨isInner_of_blank hgap, ?_⟩
    exact List.forall_mem_append.mpr ⟨hinner, isInner_of_blank hspace⟩
  have hequals : '=' ∉ (gap ++ (text ++ [' '])).reverse ++ [] := by
    rw [List.append_nil, List.mem_reverse]
    exact fun hmem => (hbefore '=' hmem).equals rfl
  have htext : gap ++ (text ++ ' ' :: '\x7b' :: (inside ++ '\x7d' :: rest))
      = (gap ++ (text ++ [' '])) ++ '\x7b' :: (inside ++ '\x7d' :: rest) := by simp
  have htrim := Text.trim_between hgap hspace hsolid.head? hsolid.getLast?
  rw [htext, declarationsAfter_append hbefore, declarationsAfter_block _ _ hequals h,
    List.append_nil, List.reverse_reverse, htrim]

end

/-- A body is cut into its declarations. -/
theorem Items.declarationsAfter_text {items : Items} {owner : Option Text}
    (h : items.WellFormed owner) : declarationsAfter [] items.text = items.declarations := by
  induction h with
  | @done _ gap blank =>
      have hgap := declarationsAfter_append (isInner_of_blank blank) [] []
      rw [List.append_nil] at hgap
      rw [text, hgap, declarationsAfter]
      rfl
  | field blank first _ ih =>
      rw [text, declarationsAfter_member blank (Field.isInner first)
        (Field.singleSpaced first).solid, ih, declarations]
  | @method _ gap method others blank first _ _ ih =>
      have hinner := Method.isInner first
      have hsolid := (Method.singleSpaced first).solid
      rw [text, declarations, Method.ending, Method.terminator]
      cases hblock : method.block with
      | none => exact (declarationsAfter_member blank hinner hsolid).trans (congrArg _ ih)
      | some block =>
          have hclosed := (first.block block hblock).balanced
          have hcut := @declarationsAfter_blockMember gap method.text others.text
            blank hinner hsolid block hclosed
          simpa [ih] using hcut
  | nested blank first body _ _ ih =>
      rw [text, declarationsAfter_blockMember blank (Head.isInner first) (Head.solid first)
        (isClosed body), ih, declarations]

theorem Items.solid_of_mem_declarations {items : Items} {owner : Option Text}
    (h : items.WellFormed owner) {declaration : Declaration}
    (hdeclaration : declaration ∈ items.declarations) : Solid declaration.text := by
  induction h with
  | done => exact absurd hdeclaration List.not_mem_nil
  | field _ first _ ih =>
      rcases List.mem_cons.mp hdeclaration with rfl | hothers
      · exact (Field.singleSpaced first).solid
      · exact ih hothers
  | method _ first _ _ ih =>
      rcases List.mem_cons.mp hdeclaration with rfl | hothers
      · exact (Method.singleSpaced first).solid
      · exact ih hothers
  | nested _ first _ _ _ ih =>
      rcases List.mem_cons.mp hdeclaration with rfl | hothers
      · exact Head.solid first
      · exact ih hothers

/-! ### Reading -/

section

variable (type : Uml.Class) (events : List Event)

theorem addMember_field {field : Field} (h : field.WellFormed) :
    addMember (type, events) ⟨field.text, .semicolon⟩ = (type.addField field.meaning, events) := by
  simp [addMember, (Field.singleSpaced h).joined_words, readField?_text h]

theorem addMember_method {method : Method} (h : method.WellFormed) (hname : method.name ≠ type.name)
    (terminator : Terminator) :
    addMember (type, events) ⟨method.text, terminator⟩
      = (type.addMethod method.meaning, events) := by
  simp [addMember, (Method.singleSpaced h).joined_words, readField?_method h,
    readMethod?_text h hname]

/-- A declared type is no member. -/
theorem addMember_head {head : Head} (h : head.WellFormed) :
    addMember (type, events) ⟨head.text, .block⟩ = (type, events) := by
  have hround : '(' ∉ Text.joined [' '] head.text.words := by
    intro hmem
    have hplain : ∀ c ∈ Text.joined [' '] head.text.words, isHeadChar c = true := by
      refine Text.forall_mem_joined (List.forall_mem_singleton.mpr (by decide)) ?_
      intro word hword c hc
      exact Head.isHeadChar h c (Text.mem_of_mem_words hword hc)
    exact absurd (hplain '(' hmem) (by decide)
  simp [addMember, readMethod?_of_not_mem hround]

end

/-- Reading the members of a body adds its own fields and methods in their order. -/
theorem Items.foldl_addMember {items : Items} {owner : Text} (h : items.WellFormed (some owner))
    {type : Uml.Class} (hname : type.name = owner) (events : List Event) :
    items.declarations.foldl addMember (type, events)
      = ({ type with
          fields := type.fields ++ items.fields, methods := type.methods ++ items.methods },
        events) := by
  generalize hsome : some owner = owner? at h
  induction h generalizing type with
  | done => simp [declarations, fields, methods]
  | @field _ _ field _ _ first _ ih =>
      have hrest := @ih (type.addField field.meaning) hname hsome
      rw [declarations, List.foldl_cons, addMember_field _ _ first, hrest]
      simp [Uml.Class.addField, fields, methods]
  | @method _ _ method _ _ first noConstructor _ ih =>
      have hother : method.name ≠ type.name := hname ▸ noConstructor owner (hsome ▸ rfl)
      have hrest := @ih (type.addMethod method.meaning) hname hsome
      rw [declarations, List.foldl_cons, addMember_method _ _ first hother, hrest]
      simp [Uml.Class.addMethod, fields, methods]
  | nested _ first _ _ _ ih =>
      rw [declarations, List.foldl_cons, addMember_head _ _ first, ih hname hsome, fields, methods]

/-- A text without annotations stays as it is. -/
theorem replaceAll_annotationMark {replacement text : Text} (h : '@' ∉ text) :
    Grammar.annotationMark.replaceAll replacement text = text := by
  refine Pattern.replaceAll_eq_self fun near c far hsplit place _ hrest => ?_
  refine Pattern.matchAt?_eq_none_iff.mpr ((Pattern.Opens.lit '@').all.not_mem ?_)
  rw [hrest]
  refine forall_head?_cons ?_ far
  rw [beq_eq_false_iff_ne]
  rintro rfl
  exact h (by rw [hsplit]; simp)

/-- The members of a written body are its own fields and methods, and nothing is passed over in
silence. -/
theorem Items.addMembers_text {items : Items} {owner : Text} (h : items.WellFormed (some owner))
    {type : Uml.Class} (hname : type.name = owner) :
    addMembers type items.text
      = ({ type with
          fields := type.fields ++ items.fields, methods := type.methods ++ items.methods },
        []) := by
  have hmark : '@' ∉ items.text := fun hmem => (isOpen h '@' hmem).mark rfl
  have hnonempty : ∀ declaration ∈ items.declarations, (!declaration.text.isEmpty) = true := by
    intro declaration hdeclaration
    simpa using (solid_of_mem_declarations h hdeclaration).ne_nil
  rw [addMembers, replaceAll_annotationMark hmark, memberDeclarations, declarationsAfter_text h,
    List.filter_eq_self.mpr hnonempty, foldl_addMember h hname]

end Diagrams.Code.Written
