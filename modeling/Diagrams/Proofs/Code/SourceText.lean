/-
What heads and whole sources are made of.

The head of a declaration is written with the characters of types and hyphens.  Around heads and
members there are blanks, the braces of bodies and blocks, and semicolons, so a source holds no
quote character, no comment and no mark of an annotation, and its braces are closed
(`Items.isOpen`, `Items.isClosed`).
-/
import Diagrams.Proofs.Brackets
import Diagrams.Proofs.Code.MemberText

namespace Diagrams.Code.Written

/-! ### Heads -/

/-- The characters of heads. -/
def isHeadChar (c : Char) : Bool := isTypeChar c || c == '-'

theorem isHeadChar_of_isTypeChar {c : Char} (h : isTypeChar c = true) : isHeadChar c = true := by
  simp [isHeadChar, h]

theorem isHeadChar_of_isWordChar {c : Char} (h : isWordChar c = true) : isHeadChar c = true :=
  isHeadChar_of_isTypeChar (isTypeChar_of_isWordChar h)

theorem isLetters_kind (kind : Uml.Kind) : isLetters kind.word = true := by
  cases kind <;> decide

/-- Modifiers of types are words, one of them with a hyphen. -/
theorem typeModifiers_chars : ∀ word ∈ Grammar.typeModifiers, word.toList ≠ [] ∧
    word.toList.all (fun c => c.isAlpha || c == '-') = true := by
  decide

theorem isHeadChar_modifier {word : String} (h : word ∈ Grammar.typeModifiers) :
    ∀ c ∈ word.toList, isHeadChar c = true ∧ isBlank c = false := by
  intro c hc
  have hchar := List.all_eq_true.mp (typeModifiers_chars word h).2 c hc
  rw [Bool.or_eq_true, beq_iff_eq] at hchar
  rcases hchar with halpha | rfl
  · have hword := isWordChar_of_isAlphanum (isAlphanum_of_isAlpha halpha)
    exact ⟨isHeadChar_of_isWordChar hword, isBlank_of_isWordChar hword⟩
  · decide

theorem isHeadChar_spaced {words : List String}
    (h : ∀ word ∈ words, ∀ c ∈ word.toList, isHeadChar c = true) :
    ∀ c ∈ spaced words, isHeadChar c = true := by
  induction words with
  | nil => exact fun c hc => absurd hc List.not_mem_nil
  | cons word words ih =>
      obtain ⟨hword, hwords⟩ := List.forall_mem_cons.mp h
      exact List.forall_mem_append.mpr ⟨hword, List.forall_mem_cons.mpr ⟨by decide, ih hwords⟩⟩

section

variable {types : List TypeName} (h : ∀ type ∈ types, type.WellFormed)

include h

theorem isTypeChar_typeNames : ∀ c ∈ typeNames types, isTypeChar c = true := by
  refine Text.forall_mem_joined ?_ fun piece hpiece => ?_
  · exact List.forall_mem_cons.mpr ⟨by decide, List.forall_mem_singleton.mpr (by decide)⟩
  · obtain ⟨type, htype, rfl⟩ := List.mem_map.mp hpiece
    exact TypeName.isTypeChar (h type htype)

theorem avoids_typeNames : Avoids languageWords (typeNames types) := by
  refine avoids_joined fun piece hpiece => ?_
  obtain ⟨type, htype, rfl⟩ := List.mem_map.mp hpiece
  exact TypeName.avoids (h type htype)

theorem solid_typeNames (hne : types ≠ []) : Solid (typeNames types) := by
  induction types with
  | nil => exact absurd rfl hne
  | cons type types ih =>
      obtain ⟨htype, htypes⟩ := List.forall_mem_cons.mp h
      have hfirst := TypeName.solid htype
      cases types with
      | nil => simpa [typeNames] using hfirst
      | cons next others =>
          rw [typeNames, List.map_cons, List.map_cons, Text.joined_cons_cons]
          exact hfirst.append separator (ih htypes (List.cons_ne_nil _ _))

theorem isHeadChar_clause {word : String} (hword : isLetters word = true) :
    ∀ c ∈ clause word types, isHeadChar c = true := by
  unfold clause
  split
  · exact fun c hc => absurd hc List.not_mem_nil
  · refine List.forall_mem_cons.mpr ⟨by decide, List.forall_mem_append.mpr ⟨?_, ?_⟩⟩
    · refine isHeadChar_spaced (List.forall_mem_singleton.mpr fun c hc => ?_)
      exact isHeadChar_of_isWordChar (isWordChar_of_isLetters hword c hc)
    · exact fun c hc => isHeadChar_of_isTypeChar (isTypeChar_typeNames h c hc)

/-- A clause leaves a text solid. -/
theorem solid_append_clause {front : Text} (word : String) (hfront : Solid front) :
    Solid (front ++ clause word types) := by
  unfold clause
  split
  · rw [List.append_nil]
    exact hfront
  · rename_i hempty
    have hne : types ≠ [] := by simpa using hempty
    exact hfront.append (' ' :: spaced [word]) (solid_typeNames h hne)

end

namespace Head

variable {head : Head}

theorem isHeadChar (h : head.WellFormed) : ∀ c ∈ head.text, isHeadChar c = true := by
  have hmodifiers : ∀ c ∈ spaced head.modifiers, Written.isHeadChar c = true :=
    isHeadChar_spaced fun word hword c hc => (isHeadChar_modifier (h.modifiers word hword) c hc).1
  have hkind : ∀ c ∈ spaced [head.kind.word], Written.isHeadChar c = true :=
    isHeadChar_spaced (List.forall_mem_singleton.mpr fun c hc =>
      isHeadChar_of_isWordChar (isWordChar_of_isLetters (isLetters_kind head.kind) c hc))
  refine List.forall_mem_append.mpr ⟨hmodifiers, List.forall_mem_append.mpr ⟨hkind, ?_⟩⟩
  refine List.forall_mem_append.mpr ⟨fun c hc => ?_, List.forall_mem_append.mpr ⟨?_, ?_⟩⟩
  · exact isHeadChar_of_isWordChar (h.name.isWordChar c hc)
  · exact isHeadChar_clause h.supertypes (by decide)
  · exact isHeadChar_clause h.interfaces (by decide)

theorem solid (h : head.WellFormed) : Solid head.text := by
  have hname : Solid (head.name ++
      (clause "extends" head.supertypes ++ clause "implements" head.interfaces)) := by
    rw [← List.append_assoc]
    exact solid_append_clause h.interfaces _ (solid_append_clause h.supertypes _ h.name.solid)
  have hkind : Solid (spaced [head.kind.word] ++ (head.name ++
      (clause "extends" head.supertypes ++ clause "implements" head.interfaces))) := by
    rw [spaced, List.append_assoc]
    exact (solid_letters (isLetters_kind head.kind)).append [' '] hname
  have hspaced : ∀ modifiers : List String, (∀ word ∈ modifiers, word ∈ Grammar.typeModifiers) →
      ∀ text, Solid text → Solid (spaced modifiers ++ text) := by
    intro modifiers
    induction modifiers with
    | nil => exact fun _ text htext => htext
    | cons word words ih =>
        intro hwords text htext
        obtain ⟨hword, hwords⟩ := List.forall_mem_cons.mp hwords
        have hfirst : Solid word.toList := .of_forall (typeModifiers_chars word hword).1
          fun c hc => (isHeadChar_modifier hword c hc).2
        rw [spaced, List.append_assoc]
        exact hfirst.append [' '] (ih hwords text htext)
  exact hspaced head.modifiers h.modifiers _ hkind

end Head

/-! ### Whole sources -/

/-- The character belongs to a head or a member, and not to what stands around them. -/
structure IsInner (c : Char) : Prop extends IsOpen c where
  semicolon : c ≠ ';'
  opening : c ≠ '\x7b'
  closing : c ≠ '\x7d'
  equals : c ≠ '='

theorem isInner_of_class {c : Char} {test : Char → Bool} (h : test c = true)
    (hfree : ['\x27', '"', '\x60', '\\', '/', '@', ';', '\x7b', '\x7d', '='].all (!test ·) = true) :
    IsInner c := by
  have hne : ∀ d ∈ ['\x27', '"', '\x60', '\\', '/', '@', ';', '\x7b', '\x7d', '='], c ≠ d := by
    rintro d hd rfl
    have hd := List.all_eq_true.mp hfree c hd
    rw [h] at hd
    exact Bool.noConfusion hd
  simp only [List.forall_mem_cons] at hne
  obtain ⟨hsingle, hdouble, hback, hslash, hcomment, hmark, hsemicolon, hopening, hclosing, hequals,
    -⟩ := hne
  exact ⟨⟨by simp [Brackets.isQuote, hsingle, hdouble, hback], hslash, hcomment, hmark⟩, hsemicolon,
    hopening, hclosing, hequals⟩

theorem isInner_of_blank {text : Text} (h : ∀ c ∈ text, isBlank c = true) : ∀ c ∈ text, IsInner c :=
  fun c hc => isInner_of_class (h c hc) (by decide)

theorem Field.isInner {field : Field} (h : field.WellFormed) : ∀ c ∈ field.text, IsInner c :=
  fun c hc => isInner_of_class (Field.isTypeChar h c hc) (by decide)

theorem Method.isInner {method : Method} (h : method.WellFormed) : ∀ c ∈ method.text, IsInner c :=
  fun c hc => isInner_of_class (Method.isMemberChar h c hc) (by decide)

theorem Head.isInner {head : Head} (h : head.WellFormed) : ∀ c ∈ head.text, IsInner c :=
  fun c hc => isInner_of_class (Head.isHeadChar h c hc) (by decide)

theorem isClosed_of_isInner {text : Text} (h : ∀ c ∈ text, IsInner c) : IsClosed text :=
  .of_forall fun c hc =>
    ⟨(h c hc).quote, (h c hc).opening, (h c hc).closing, (h c hc).slash, rfl⟩

/-- Braces around a closed text, with a space in front. -/
theorem isClosed_braces {inside rest : Text} (hinside : IsClosed inside) (hrest : IsClosed rest) :
    IsClosed (' ' :: '\x7b' :: (inside ++ '\x7d' :: rest)) :=
  .plain (by decide) (by decide) (by decide) (by decide) rfl (.group hinside hrest)

theorem isClosed_semicolon {rest : Text} (hrest : IsClosed rest) : IsClosed (';' :: rest) :=
  .plain (by decide) (by decide) (by decide) (by decide) rfl hrest

/-- Braces around an open text, with a space in front. -/
theorem isOpen_braces {inside rest : Text} (hinside : ∀ c ∈ inside, IsOpen c)
    (hrest : ∀ c ∈ rest, IsOpen c) :
    ∀ c ∈ ' ' :: '\x7b' :: (inside ++ '\x7d' :: rest), IsOpen c := by
  have hsigns : ∀ c ∈ [' ', '\x7b', '\x7d'], IsOpen c := by
    simp only [List.forall_mem_cons]
    exact ⟨⟨by decide, by decide, by decide, by decide⟩,
      ⟨by decide, by decide, by decide, by decide⟩, ⟨by decide, by decide, by decide, by decide⟩,
      fun c hc => absurd hc List.not_mem_nil⟩
  intro c hc
  simp only [List.mem_cons, List.mem_append] at hc
  rcases hc with rfl | rfl | hc | rfl | hc
  · exact hsigns _ (by simp)
  · exact hsigns _ (by simp)
  · exact hinside c hc
  · exact hsigns _ (by simp)
  · exact hrest c hc

theorem isOpen_semicolon : IsOpen ';' := ⟨by decide, by decide, by decide, by decide⟩

section

variable {method : Method} (h : method.WellFormed)

include h

theorem Method.isOpen_ending : ∀ c ∈ method.ending, IsOpen c := by
  unfold ending
  split
  · rename_i block hblock
    exact isOpen_braces (h.block block hblock).isOpen fun c hc => absurd hc List.not_mem_nil
  · exact List.forall_mem_singleton.mpr isOpen_semicolon

theorem Method.isClosed_ending : IsClosed method.ending := by
  unfold ending
  split
  · rename_i block hblock
    exact isClosed_braces (h.block block hblock).balanced .nil
  · exact isClosed_semicolon .nil

end

namespace Items

variable {items : Items} {owner : Option Text}

/-- Nothing in a source hides anything else. -/
theorem isOpen (h : items.WellFormed owner) : ∀ c ∈ items.text, IsOpen c := by
  induction h with
  | done blank => exact fun c hc => (isInner_of_blank blank c hc).toIsOpen
  | field blank first _ ih =>
      refine List.forall_mem_append.mpr ⟨fun c hc => (isInner_of_blank blank c hc).toIsOpen, ?_⟩
      refine List.forall_mem_append.mpr ⟨fun c hc => (Field.isInner first c hc).toIsOpen, ?_⟩
      exact List.forall_mem_cons.mpr ⟨isOpen_semicolon, ih⟩
  | method blank first _ _ ih =>
      refine List.forall_mem_append.mpr ⟨fun c hc => (isInner_of_blank blank c hc).toIsOpen, ?_⟩
      refine List.forall_mem_append.mpr ⟨fun c hc => (Method.isInner first c hc).toIsOpen, ?_⟩
      exact List.forall_mem_append.mpr ⟨Method.isOpen_ending first, ih⟩
  | nested blank first _ _ ihInside ih =>
      refine List.forall_mem_append.mpr ⟨fun c hc => (isInner_of_blank blank c hc).toIsOpen, ?_⟩
      refine List.forall_mem_append.mpr ⟨fun c hc => (Head.isInner first c hc).toIsOpen, ?_⟩
      exact isOpen_braces ihInside ih

/-- The braces of a source are closed. -/
theorem isClosed (h : items.WellFormed owner) : IsClosed items.text := by
  induction h with
  | done blank => exact isClosed_of_isInner (isInner_of_blank blank)
  | field blank first _ ih =>
      refine (isClosed_of_isInner (isInner_of_blank blank)).append ?_
      exact (isClosed_of_isInner (Field.isInner first)).append (isClosed_semicolon ih)
  | method blank first _ _ ih =>
      refine (isClosed_of_isInner (isInner_of_blank blank)).append ?_
      exact (isClosed_of_isInner (Method.isInner first)).append
        ((Method.isClosed_ending first).append ih)
  | nested blank first _ _ ihInside ih =>
      refine (isClosed_of_isInner (isInner_of_blank blank)).append ?_
      exact (isClosed_of_isInner (Head.isInner first)).append (isClosed_braces ihInside ih)

end Items

end Diagrams.Code.Written
