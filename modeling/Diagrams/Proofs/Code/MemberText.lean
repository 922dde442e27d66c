/-
What the texts of members are made of.

A member is written with word characters, spaces, the punctuation of types and, for a method, round
brackets.  So nothing in it ends a declaration, opens a block or hides a brace.  Its words have
single spaces between them, and none of them declares a type.
-/
import Diagrams.Proofs.Code.LeadingWords

namespace Diagrams.Code.Written

/-- The characters of members. -/
def isMemberChar (c : Char) : Bool := isTypeChar c || c == '(' || c == ')'

theorem isMemberChar_of_isTypeChar {c : Char} (h : isTypeChar c = true) :
    isMemberChar c = true := by
  simp [isMemberChar, h]

theorem declaringWords_ne_nil : ∀ word ∈ declaringWords, word.toList ≠ [] := by decide

theorem declaringWords_subset : ∀ word ∈ declaringWords, word ∈ languageWords := by decide

/-! ### The words in front -/

/-- The words that may stand in front of a member. -/
def memberWords : List String :=
  knownVisibilities ++ (Grammar.fieldModifiers ++ Grammar.methodModifiers)

theorem isLetters_memberWords :
    ∀ word ∈ memberWords, isLetters word = true ∧ word ∉ declaringWords := by
  decide

/-- Two words, each of which may be left out. -/
def flags (first second : String) (isFirst isSecond : Bool) : List String :=
  (if isFirst then [first] else []) ++ if isSecond then [second] else []

section

variable (first second : String) (isFirst isSecond : Bool)

theorem length_flags : (flags first second isFirst isSecond).length ≤ 2 := by
  cases isFirst <;> cases isSecond <;> simp [flags]

theorem mem_flags {word : String} (h : word ∈ flags first second isFirst isSecond) :
    word = first ∨ word = second := by
  rcases List.mem_append.mp h with hmem | hmem
  · cases isFirst with
    | false => exact absurd hmem List.not_mem_nil
    | true => exact .inl (List.mem_singleton.mp hmem)
  · cases isSecond with
    | false => exact absurd hmem List.not_mem_nil
    | true => exact .inr (List.mem_singleton.mp hmem)

/-- Different words are told apart. -/
theorem contains_flags (hne : first ≠ second) :
    (flags first second isFirst isSecond).contains first = isFirst ∧
      (flags first second isFirst isSecond).contains second = isSecond := by
  cases isFirst <;> cases isSecond <;> simp [flags, hne, hne.symm]

end

theorem Field.mem_modifiers {field : Field} {word : String} (h : word ∈ field.modifiers) :
    word ∈ Grammar.fieldModifiers := by
  rcases mem_flags "static" "final" field.isStatic field.isFinal h with rfl | rfl <;> decide

theorem Method.mem_modifiers {method : Method} {word : String} (h : word ∈ method.modifiers) :
    word ∈ Grammar.methodModifiers := by
  rcases mem_flags "static" "abstract" method.isStatic method.isAbstract h with rfl | rfl <;> decide

theorem Field.contains_modifiers (field : Field) :
    field.modifiers.contains "static" = field.isStatic ∧
      field.modifiers.contains "final" = field.isFinal := contains_flags _ _ _ _ (by decide)

theorem Method.contains_modifiers (method : Method) :
    method.modifiers.contains "static" = method.isStatic ∧
      method.modifiers.contains "abstract" = method.isAbstract := contains_flags _ _ _ _ (by decide)

theorem Field.mem_words {field : Field} {word : String} (h : word ∈ field.words) :
    word ∈ memberWords := by
  rcases List.mem_append.mp h with h | h
  · exact List.mem_append_left _ (mem_visibilityWords h)
  · exact List.mem_append_right _ (List.mem_append_left _ (Field.mem_modifiers h))

theorem Method.mem_words {method : Method} {word : String} (h : word ∈ method.words) :
    word ∈ memberWords := by
  rcases List.mem_append.mp h with h | h
  · exact List.mem_append_left _ (mem_visibilityWords h)
  · exact List.mem_append_right _ (List.mem_append_right _ (Method.mem_modifiers h))

theorem isTypeChar_spaced {words : List String} (h : ∀ word ∈ words, word ∈ memberWords) :
    ∀ c ∈ spaced words, isTypeChar c = true := by
  induction words with
  | nil => exact fun c hc => absurd hc List.not_mem_nil
  | cons word words ih =>
      obtain ⟨hword, hwords⟩ := List.forall_mem_cons.mp h
      have hletters := isWordChar_of_isLetters (isLetters_memberWords word hword).1
      intro c hc
      rcases List.mem_append.mp hc with hc | hc
      · exact isTypeChar_of_isWordChar (hletters c hc)
      · rcases List.mem_cons.mp hc with rfl | hc
        · decide
        · exact ih hwords c hc

/-! ### A type and a name -/

section

variable {type : MemberType} {name : Text} (htype : type.WellFormed) (hname : IsName name)

include htype hname

theorem isTypeChar_typed : ∀ c ∈ type.text ++ ' ' :: name, isTypeChar c = true := by
  refine List.forall_mem_append.mpr ⟨(MemberType.isTypeList htype).isTypeChar, ?_⟩
  refine List.forall_mem_cons.mpr ⟨by decide, fun c hc => ?_⟩
  exact isTypeChar_of_isWordChar (hname.isWordChar c hc)

theorem avoids_typed : Avoids languageWords (type.text ++ ' ' :: name) :=
  (MemberType.isTypeList htype).avoids.append_cons (by decide) hname.avoids

theorem singleSpaced_typed : SingleSpaced (type.text ++ ' ' :: name) :=
  .append htype.qualified.isQualifiedList.commaSpaced.singleSpaced
    (.word hname.ne_nil hname.isBlank)

end

/-! ### Fields -/

namespace Field

variable {field : Field}

theorem isTypeChar (h : field.WellFormed) : ∀ c ∈ field.text, isTypeChar c = true :=
  List.forall_mem_append.mpr
    ⟨isTypeChar_spaced fun _ hword => mem_words hword, isTypeChar_typed h.type h.name⟩

theorem avoids (h : field.WellFormed) : Avoids declaringWords field.text :=
  .spaced (fun word hword => isLetters_memberWords word (mem_words hword))
    ((avoids_typed h.type h.name).mono declaringWords_subset)

theorem singleSpaced (h : field.WellFormed) : SingleSpaced field.text :=
  .spaced (fun word hword => (isLetters_memberWords word (mem_words hword)).1)
    (singleSpaced_typed h.type h.name)

end Field

/-! ### Methods -/

section

variable {parameters : List Parameter} (h : ∀ parameter ∈ parameters, parameter.WellFormed)

include h

theorem isTypeChar_parameters :
    ∀ c ∈ Text.joined separator (parameters.map Parameter.text), isTypeChar c = true := by
  refine Text.forall_mem_joined ?_ fun piece hpiece => ?_
  · exact List.forall_mem_cons.mpr ⟨by decide, List.forall_mem_singleton.mpr (by decide)⟩
  · obtain ⟨parameter, hparameter, rfl⟩ := List.mem_map.mp hpiece
    exact isTypeChar_typed (h parameter hparameter).type (h parameter hparameter).name

theorem avoids_parameters :
    Avoids languageWords (Text.joined separator (parameters.map Parameter.text)) := by
  refine avoids_joined fun piece hpiece => ?_
  obtain ⟨parameter, hparameter, rfl⟩ := List.mem_map.mp hpiece
  exact avoids_typed (h parameter hparameter).type (h parameter hparameter).name

theorem singleSpaced_parameters (hne : parameters ≠ []) :
    SingleSpaced (Text.joined separator (parameters.map Parameter.text)) := by
  induction parameters with
  | nil => exact absurd rfl hne
  | cons parameter parameters ih =>
      obtain ⟨hparameter, hparameters⟩ := List.forall_mem_cons.mp h
      have hfirst : SingleSpaced parameter.text :=
        singleSpaced_typed hparameter.type hparameter.name
      cases parameters with
      | nil => simpa using hfirst
      | cons next others =>
          have hcomma : SingleSpaced [','] :=
            .word (by simp) (List.forall_mem_singleton.mpr (by decide))
          have hothers := ih hparameters (List.cons_ne_nil next others)
          have htext := SingleSpaced.append (hfirst.adjacent hcomma) hothers
          rw [List.append_assoc] at htext
          rw [List.map_cons, List.map_cons, Text.joined_cons_cons]
          exact htext

end

namespace Method

variable {method : Method}

theorem isMemberChar (h : method.WellFormed) : ∀ c ∈ method.text, isMemberChar c = true := by
  have hlist : ∀ c ∈ method.parameterList ++ [')'], Written.isMemberChar c = true := by
    refine List.forall_mem_append.mpr ⟨fun c hc => ?_, List.forall_mem_singleton.mpr (by decide)⟩
    exact isMemberChar_of_isTypeChar (isTypeChar_parameters h.parameters c hc)
  have htyped : ∀ c ∈ method.type.text ++ ' ' :: method.name, Written.isMemberChar c = true :=
    fun c hc => isMemberChar_of_isTypeChar (isTypeChar_typed h.type h.name c hc)
  have hwords : ∀ c ∈ spaced method.words, Written.isMemberChar c = true := fun c hc =>
    isMemberChar_of_isTypeChar (isTypeChar_spaced (fun _ hword => mem_words hword) c hc)
  have htext : method.text = spaced method.words ++ ((method.type.text ++ ' ' :: method.name) ++
      '(' :: (method.parameterList ++ [')'])) := by
    simp [text]
  rw [htext]
  refine List.forall_mem_append.mpr ⟨hwords, List.forall_mem_append.mpr ⟨htyped, ?_⟩⟩
  exact List.forall_mem_cons.mpr ⟨by decide, hlist⟩

theorem avoids (h : method.WellFormed) : Avoids declaringWords method.text := by
  have hlist : Avoids languageWords (method.parameterList ++ [')']) :=
    (avoids_parameters h.parameters).append_cons (by decide) (.nil languageWords_ne_nil)
  have htyped := (avoids_typed h.type h.name).append_cons (c := '(') (by decide) hlist
  rw [List.append_assoc] at htyped
  exact .spaced (fun word hword => isLetters_memberWords word (mem_words hword))
    (htyped.mono declaringWords_subset)

theorem singleSpaced (h : method.WellFormed) : SingleSpaced method.text := by
  have hbracket : ∀ c, isBlank c = false → SingleSpaced [c] := fun c hc =>
    .word (by simp) (List.forall_mem_singleton.mpr hc)
  have hlist : SingleSpaced ('(' :: (method.parameterList ++ [')'])) := by
    by_cases hnone : method.parameters = []
    · rw [parameterList, hnone]
      exact (hbracket '(' (by decide)).adjacent (hbracket ')' (by decide))
    · have hparameters := singleSpaced_parameters h.parameters hnone
      exact (hbracket '(' (by decide)).adjacent (hparameters.adjacent (hbracket ')' (by decide)))
  have htyped := (singleSpaced_typed h.type h.name).adjacent hlist
  rw [List.append_assoc] at htyped
  exact .spaced (fun word hword => (isLetters_memberWords word (mem_words hword)).1) htyped

end Method

end Diagrams.Code.Written
