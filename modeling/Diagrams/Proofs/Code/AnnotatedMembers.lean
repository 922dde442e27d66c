/-
Annotations in front of members.

A body is cut into declarations one member after the other.  A member is the text up to the
semicolon or the block that ends its declaration (`IsMember`), and how it is cut out depends
neither on what stands behind it nor on the blanks in front of it.  An annotation leaves such
blanks, so a body is cut into the same declarations with the annotations of its members and without
them (`addMembers_annotated`).

That holds for arguments without round brackets.  With brackets in them the end of the
arguments stays in the body, the declaration behind it is read as no member, and a field
is lost (`addMembers_nested`).
-/
import Diagrams.Proofs.Code.Annotations
import Diagrams.Proofs.Code.Body

namespace Diagrams.Code

/-! ### Members -/

/-- The text of one member, where `before` has been read of it, nearest character first. -/
inductive IsMember : (before : Text) → Text → Prop
  | semicolon {before : Text} : IsMember before [';']
  | block {before inside : Text} (equals : '=' ∉ before)
      (closed : Brackets.curly.closing? ('\x7b' :: (inside ++ ['\x7d'])) 0
        = some (inside.length + 1)) :
      IsMember before ('\x7b' :: (inside ++ ['\x7d']))
  | value {before inside rest : Text} (equals : '=' ∈ before)
      (closed : Brackets.curly.closing? ('\x7b' :: (inside ++ ['\x7d'])) 0
        = some (inside.length + 1))
      (tail : IsMember (emptyBlock.reverse ++ before) rest) :
      IsMember before ('\x7b' :: (inside ++ '\x7d' :: rest))
  | plain {before rest : Text} {c : Char} (semicolon : c ≠ ';') (opening : c ≠ '\x7b')
      (closing : c ≠ '\x7d') (tail : IsMember (c :: before) rest) : IsMember before (c :: rest)

section

variable {before : Text}

/-- What ends no declaration and opens no block goes on with the member. -/
theorem IsMember.of_plain {front rest : Text} (h : ∀ c ∈ front, c ≠ ';' ∧ c ≠ '\x7b' ∧ c ≠ '\x7d')
    (hrest : IsMember (front.reverse ++ before) rest) : IsMember before (front ++ rest) := by
  induction front generalizing before with
  | nil => exact hrest
  | cons c front ih =>
      obtain ⟨⟨semicolon, opening, closing⟩, hfront⟩ := List.forall_mem_cons.mp h
      refine .plain semicolon opening closing (ih hfront ?_)
      simpa using hrest

/-- A member is cut out as one declaration, whatever blanks are in front of it and whatever
follows. -/
theorem IsMember.exists_declaration {text : Text} (h : IsMember before text) :
    ∃ declaration, ∀ gap rest, (∀ c ∈ gap, isBlank c = true) →
      declarationsAfter (before ++ gap) (text ++ rest)
        = declaration :: declarationsAfter [] rest := by
  have htrim : ∀ before gap : Text, (∀ c ∈ gap, isBlank c = true) →
      Text.trim (before ++ gap).reverse = Text.trim before.reverse := by
    intro before gap hgap
    rw [List.reverse_append, Text.trim_append_of_blank fun c hc => hgap c (List.mem_reverse.mp hc)]
  have hequals : ∀ before gap : Text, (∀ c ∈ gap, isBlank c = true) →
      ('=' ∈ before ++ gap ↔ '=' ∈ before) := by
    intro before gap hgap
    rw [List.mem_append, or_iff_left]
    exact fun hmem => absurd (hgap '=' hmem) (by decide)
  induction h with
  | @semicolon before =>
      refine ⟨⟨Text.trim before.reverse, .semicolon⟩, fun gap rest hgap => ?_⟩
      rw [List.cons_append, List.nil_append, declarationsAfter_semicolon, htrim _ _ hgap]
  | @block before inside equals closed =>
      refine ⟨⟨Text.trim before.reverse, .block⟩, fun gap rest hgap => ?_⟩
      have hnone : '=' ∉ before ++ gap := fun hmem => equals ((hequals _ _ hgap).mp hmem)
      rw [List.cons_append, List.append_assoc, List.singleton_append,
        declarationsAfter_closed closed hnone, htrim _ _ hgap]
  | @value before inside tail equals closed _ ih =>
      obtain ⟨declaration, hcut⟩ := ih
      refine ⟨declaration, fun gap rest hgap => ?_⟩
      rw [List.cons_append, List.append_assoc, List.cons_append,
        declarationsAfter_value closed ((hequals _ _ hgap).mpr equals), ← List.append_assoc]
      exact hcut gap rest hgap
  | plain semicolon opening closing _ ih =>
      obtain ⟨declaration, hcut⟩ := ih
      refine ⟨declaration, fun gap rest hgap => ?_⟩
      rw [List.cons_append, declarationsAfter, if_neg semicolon, if_neg opening, if_neg closing]
      exact hcut gap rest hgap

end

/-! ### Annotations -/

theorem isDotted_of_isBlank {c : Char} (h : isBlank c = true) : Grammar.isDotted c = false := by
  have hdot : c ≠ '.' := by
    rintro rfl
    exact absurd h (by decide)
  simp [Grammar.isDotted, isWordChar_of_isBlank h, hdot]

/-- An annotation, with the blanks behind it. -/
structure AnnotationMark where
  /-- Its name, with dots or without. -/
  name : Text
  /-- What stands between the round brackets, if there are any. -/
  arguments : Option Text := none
  /-- The blanks behind it. -/
  gap : Text := [' ']

/-- The text of an annotation. -/
def AnnotationMark.text (mark : AnnotationMark) : Text :=
  let arguments := match mark.arguments with
    | some inner => '(' :: (inner ++ [')'])
    | none => []
  '@' :: (mark.name ++ (arguments ++ mark.gap))

/-- What an annotation can be made of.  There are no round brackets between those of its
arguments. -/
structure AnnotationMark.WellFormed (mark : AnnotationMark) : Prop where
  name_ne : mark.name ≠ []
  name : ∀ c ∈ mark.name, Grammar.isDotted c = true
  arguments : ∀ inner ∈ mark.arguments, ∀ c ∈ inner, isArgumentChar c = true
  gap_ne : mark.gap ≠ []
  gap : ∀ c ∈ mark.gap, isBlank c = true

section

variable {rest : Text}

theorem withoutAnnotations_of_blank {gap : Text} (hgap : ∀ c ∈ gap, isBlank c = true) :
    withoutAnnotations (gap ++ rest) = gap ++ withoutAnnotations rest := by
  induction gap with
  | nil => rfl
  | cons c gap ih =>
      obtain ⟨hc, hgap⟩ := List.forall_mem_cons.mp hgap
      have hnone : afterAnnotation? (c :: (gap ++ rest)) = none := by
        rw [afterAnnotation?.eq_2]
        rintro _ hcons
        obtain ⟨rfl, -⟩ := List.cons.inj hcons
        exact absurd hc (by decide)
      rw [List.cons_append, withoutAnnotations_of_none hnone, ih hgap, List.cons_append]

variable (hblank : ∀ c ∈ rest.head?, isBlank c = false) (hopening : ∀ c ∈ rest.head?, c ≠ '(')

include hblank hopening

/-- An annotation is taken off up to the blanks behind it. -/
theorem afterAnnotation?_text {mark : AnnotationMark} (h : mark.WellFormed) :
    afterAnnotation? (mark.text ++ rest) = some (mark.gap ++ rest) := by
  have hspace : ∀ c ∈ (mark.gap ++ rest).head?, Grammar.isDotted c = false :=
    forall_head?_append h.gap_ne (fun c hc => isDotted_of_isBlank (h.gap c hc)) rest
  rw [afterAnnotation?_eq_some_iff, AnnotationMark.text]
  cases hargs : mark.arguments with
  | none =>
      refine ⟨mark.name, mark.gap ++ rest, by simp, h.name_ne, h.name, hspace, ?_⟩
      refine (afterArguments_eq_self fun blanks inner after hblanks _ hsplit => ?_).symm
      obtain ⟨-, hrest⟩ :=
        append_inj_of_stop h.gap hblanks hblank (forall_head?_cons (by decide) _) hsplit
      exact hopening '(' (by rw [hrest]; rfl) rfl
  | some inner =>
      refine ⟨mark.name, '(' :: (inner ++ ')' :: (mark.gap ++ rest)), by simp, h.name_ne,
        h.name, forall_head?_cons (by decide) _, ?_⟩
      have hclosed := @afterArguments_of_closed [] inner (mark.gap ++ rest) (List.forall_mem_nil _)
        (h.arguments inner hargs)
      exact hclosed.symm

/-- An annotation makes way for blanks. -/
theorem withoutAnnotations_text {mark : AnnotationMark} (h : mark.WellFormed) :
    withoutAnnotations (mark.text ++ rest) = ' ' :: (mark.gap ++ withoutAnnotations rest) := by
  rw [withoutAnnotations_of_some (afterAnnotation?_text hblank hopening h),
    withoutAnnotations_of_blank h.gap]

/-- Annotations in a row make way for blanks. -/
theorem withoutAnnotations_flatMap {annotations : List AnnotationMark}
    (h : ∀ mark ∈ annotations, mark.WellFormed) :
    ∃ blanks, (∀ c ∈ blanks, isBlank c = true) ∧
      withoutAnnotations (annotations.flatMap AnnotationMark.text ++ rest)
        = blanks ++ withoutAnnotations rest := by
  induction annotations with
  | nil => exact ⟨[], fun c hc => absurd hc List.not_mem_nil, rfl⟩
  | cons mark annotations ih =>
      obtain ⟨hfirst, hothers⟩ := List.forall_mem_cons.mp h
      obtain ⟨blanks, hblanks, htext⟩ := ih hothers
      -- Behind the annotation there is the next one, or else the member.
      have hhead : ∀ c ∈ (annotations.flatMap AnnotationMark.text ++ rest).head?,
          isBlank c = false ∧ c ≠ '(' := by
        cases annotations with
        | nil => exact fun c hc => ⟨hblank c hc, hopening c hc⟩
        | cons next others =>
            rw [List.flatMap_cons, AnnotationMark.text]
            rintro c ⟨⟩
            decide
      refine ⟨' ' :: (mark.gap ++ blanks), ?_, ?_⟩
      · exact List.forall_mem_cons.mpr ⟨by decide, List.forall_mem_append.mpr ⟨hfirst.gap, hblanks⟩⟩
      · rw [List.flatMap_cons, List.append_assoc,
          withoutAnnotations_text (fun c hc => (hhead c hc).1)
          (fun c hc => (hhead c hc).2) hfirst, htext]
        simp

end

/-! ### Annotated members -/

/-- A member of a body with annotations in front of it. -/
structure AnnotatedMember where
  /-- The blanks in front. -/
  gap : Text := [' ']
  /-- The annotations. -/
  annotations : List AnnotationMark
  /-- The member. -/
  text : Text

namespace AnnotatedMember

/-- The member without the annotations in front of it. -/
def bare (member : AnnotatedMember) : Text := member.gap ++ member.text

/-- The member with the annotations in front of it. -/
def annotated (member : AnnotatedMember) : Text :=
  member.gap ++ (member.annotations.flatMap AnnotationMark.text ++ member.text)

/-- One member with the annotations in front of it.  There may be other annotations inside of it, of
its parameters for example, if their arguments are closed. -/
structure WellFormed (member : AnnotatedMember) : Prop where
  gap : ∀ c ∈ member.gap, isBlank c = true
  annotations : ∀ mark ∈ member.annotations, mark.WellFormed
  blank : ∀ c ∈ member.text.head?, isBlank c = false
  opening : ∀ c ∈ member.text.head?, c ≠ '('
  contained : Contained member.text
  isMember : IsMember [] (withoutAnnotations member.text)

/-- A member is cut out as the same declaration with its annotations and without them. -/
theorem exists_declaration {member : AnnotatedMember} (h : member.WellFormed) :
    ∃ declaration, ∀ rest,
      declarationsAfter [] (withoutAnnotations (member.annotated ++ rest))
          = declaration :: declarationsAfter [] (withoutAnnotations rest) ∧
        declarationsAfter [] (withoutAnnotations (member.bare ++ rest))
          = declaration :: declarationsAfter [] (withoutAnnotations rest) := by
  obtain ⟨declaration, hcut⟩ := h.isMember.exists_declaration
  have hne : member.text ≠ [] := by
    intro hnil
    have hmember := h.isMember
    rw [hnil, withoutAnnotations] at hmember
    cases hmember
  have hblanks : ∀ blanks : Text, (∀ c ∈ blanks, isBlank c = true) → ∀ rest,
      declarationsAfter [] (blanks ++ (withoutAnnotations member.text ++ rest))
        = declaration :: declarationsAfter [] rest := by
    intro blanks hblanks rest
    rw [Written.declarationsAfter_append (Written.isInner_of_blank hblanks), List.append_nil]
    exact hcut blanks.reverse rest fun c hc => hblanks c (List.mem_reverse.mp hc)
  refine ⟨declaration, fun rest => ⟨?_, ?_⟩⟩
  · have hhead : (member.text ++ rest).head? = member.text.head? :=
      List.head?_append_of_ne_nil _ hne
    obtain ⟨blanks, hspaces, htext⟩ := @withoutAnnotations_flatMap (member.text ++ rest)
      (hhead ▸ h.blank) (hhead ▸ h.opening) _ h.annotations
    rw [annotated, List.append_assoc, List.append_assoc, withoutAnnotations_of_blank h.gap, htext,
      withoutAnnotations_append h.contained, ← List.append_assoc]
    exact hblanks _ (List.forall_mem_append.mpr ⟨h.gap, hspaces⟩) _
  · rw [bare, List.append_assoc, withoutAnnotations_of_blank h.gap,
      withoutAnnotations_append h.contained]
    exact hblanks _ h.gap _

/-- The declarations of a body are the same with the annotations of its members and without them. -/
theorem declarationsAfter_flatMap {members : List AnnotatedMember}
    (h : ∀ member ∈ members, member.WellFormed) (rest : Text) :
    declarationsAfter [] (withoutAnnotations (members.flatMap annotated ++ rest))
      = declarationsAfter [] (withoutAnnotations (members.flatMap bare ++ rest)) := by
  induction members with
  | nil => rfl
  | cons member members ih =>
      obtain ⟨hfirst, hothers⟩ := List.forall_mem_cons.mp h
      obtain ⟨declaration, hcut⟩ := exists_declaration hfirst
      rw [List.flatMap_cons, List.flatMap_cons, List.append_assoc, List.append_assoc, (hcut _).1,
        (hcut _).2, ih hothers]

end AnnotatedMember

/-- Annotations in front of the members of a body do not change what is read of it. -/
theorem addMembers_annotated {members : List AnnotatedMember}
    (h : ∀ member ∈ members, member.WellFormed) (type : Uml.Class) (rest : Text) :
    addMembers type (members.flatMap AnnotatedMember.annotated ++ rest)
      = addMembers type (members.flatMap AnnotatedMember.bare ++ rest) := by
  simp only [addMembers, Pattern.replaceAll_eq_replaceFrom, replaceFrom_annotationMark,
    memberDeclarations, AnnotatedMember.declarationsAfter_flatMap h]

/-- A field with two annotations in front of it. -/
def annotatedField : AnnotatedMember where
  annotations :=
    [{ name := "Id".toList },
      { name := "Column".toList, arguments := some "name = 1".toList, gap := "\n ".toList }]
  text := "private int id;".toList

/-- A method with an annotation in front of it. -/
def annotatedMethod : AnnotatedMember where
  annotations := [{ name := "Override".toList }]
  text := "void f(int x) \x7b g(x); \x7d".toList

section

variable {text : Text}

theorem AnnotationMark.wellFormed_of_name {name : Text} (hne : name ≠ [])
    (h : name.all Grammar.isDotted = true) : AnnotationMark.WellFormed { name } where
  name_ne := hne
  name := List.all_eq_true.mp h
  arguments := fun inner hinner => absurd hinner (Option.not_mem_none inner)
  gap_ne := List.cons_ne_nil _ _
  gap := List.forall_mem_singleton.mpr (by decide)

theorem contained_of_not_mem {c : Char} (hlast : text.getLast? = some c) (hc : c = ';' ∨ c = '\x7d')
    (h : '@' ∉ text) : Contained text where
  ending := fun _ hd => Option.some.inj (hlast.symm.trans hd) ▸ hc
  closed := fun _ _ htail _ => absurd (htail.mem List.mem_cons_self) h

theorem withoutAnnotations_eq_self (h : '@' ∉ text) : withoutAnnotations text = text := by
  rw [← replaceFrom_annotationMark none 0, ← Pattern.replaceAll_eq_replaceFrom,
    Written.replaceAll_annotationMark h]

end

theorem wellFormed_annotatedField : annotatedField.WellFormed where
  gap := List.forall_mem_singleton.mpr (by decide)
  annotations := by
    refine List.forall_mem_cons.mpr ⟨AnnotationMark.wellFormed_of_name (by decide) rfl, ?_⟩
    refine List.forall_mem_singleton.mpr ⟨by decide, List.all_eq_true.mp rfl, ?_, by decide,
      List.all_eq_true.mp rfl⟩
    rintro _ ⟨⟩
    exact List.all_eq_true.mp rfl
  blank := by
    rintro _ ⟨⟩
    decide
  opening := by
    rintro _ ⟨⟩
    decide
  contained := contained_of_not_mem rfl (.inl rfl) (by decide)
  isMember := by
    rw [withoutAnnotations_eq_self (by decide)]
    exact @IsMember.of_plain [] "private int id".toList _ (List.all_iff_forall_prop.mp (by decide))
      .semicolon

theorem wellFormed_annotatedMethod : annotatedMethod.WellFormed where
  gap := List.forall_mem_singleton.mpr (by decide)
  annotations := List.forall_mem_singleton.mpr (AnnotationMark.wellFormed_of_name (by decide) rfl)
  blank := by
    rintro _ ⟨⟩
    decide
  opening := by
    rintro _ ⟨⟩
    decide
  contained := contained_of_not_mem rfl (.inr rfl) (by decide)
  isMember := by
    rw [withoutAnnotations_eq_self (by decide)]
    exact @IsMember.of_plain [] "void f(int x) ".toList _ (List.all_iff_forall_prop.mp (by decide))
      (@IsMember.block _ " g(x); ".toList (by decide) (by decide))

/-- The field and the method are read with their annotations and without them. -/
theorem addMembers_annotated_two :
    (∀ member ∈ [annotatedField, annotatedMethod], member.WellFormed) ∧
      addMembers { name := ['A'] }
          ([annotatedField, annotatedMethod].flatMap AnnotatedMember.annotated ++ [' '])
        = addMembers { name := ['A'] }
          ([annotatedField, annotatedMethod].flatMap AnnotatedMember.bare ++ [' ']) := by
  have hmembers : ∀ member ∈ [annotatedField, annotatedMethod], member.WellFormed :=
    List.forall_mem_cons.mpr
      ⟨wellFormed_annotatedField, List.forall_mem_singleton.mpr wellFormed_annotatedMethod⟩
  exact ⟨hmembers, addMembers_annotated hmembers { name := ['A'] } [' ']⟩

/-- With brackets in its arguments, an annotation takes the field behind it away. -/
theorem addMembers_nested :
    (addMembers { name := "A".toList } " private int id; int n; ".toList).1.fields.map
          Uml.Field.name = ["id".toList, "n".toList] ∧
      (addMembers { name := "A".toList }
          " @Column(converter = @Converter(x)) private int id; int n; ".toList).1.fields.map
          Uml.Field.name = ["n".toList] := by
  decide +kernel

end Diagrams.Code
