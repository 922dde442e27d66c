/-
Written members are read as what they stand for.

A written field is a declaration with as many modifiers as it needs, and without a value
(`readField?_text`).  A written method is such a signature without exceptions (`readMethod?_text`).
The other pattern fails where it is tried first: a method ends with a bracket, which no field does.
-/
import Diagrams.Proofs.Code.Fields
import Diagrams.Proofs.Code.MemberText
import Diagrams.Proofs.Pattern.Search

namespace Diagrams.Code.Written

open Pattern

/-! ### Fields -/

/-- A text that avoids a word does not start with it. -/
theorem leadingWord_ne_of_avoids {words : List String} {text : Text} (h : Avoids words text)
    {word : String} (hword : word ∈ words) : leadingWord text ≠ word.toList := by
  intro heq
  have htext : text = word.toList ++ text.dropWhile isWordChar := by
    rw [← heq, leadingWord, List.takeWhile_append_dropWhile]
  have hletters : ∀ c ∈ word.toList, isWordChar c = true := by
    rw [← heq]
    exact fun c hc => List.mem_takeWhile_imp hc
  rw [htext] at h
  have hstop : ∀ c ∈ (text.dropWhile isWordChar).head?, isWordChar c = false := by
    intro c hc
    have hnot := List.head?_dropWhile_not isWordChar text
    rwa [Option.mem_def.mp hc] at hnot
  exact @Avoids.not_mem _ [] _ _ h hword hletters (by simp) hstop

theorem fieldModifiers_subset : ∀ word ∈ Grammar.fieldModifiers, word ∈ languageWords := by decide

/-- A written field as a declaration without a value. -/
def Field.declaration (field : Field) : FieldDeclaration :=
  { visibility := field.visibility, modifiers := field.modifiers, type := field.type
    name := field.name }

namespace Field

theorem text_declaration (field : Field) : field.declaration.text = field.text := by
  simp [declaration, FieldDeclaration.text, valueClause, text, words]

theorem meaning_declaration (field : Field) : field.declaration.meaning = field.meaning := by
  obtain ⟨hstatic, hfinal⟩ := field.contains_modifiers
  rw [FieldDeclaration.meaning, meaning, declaration, hstatic, hfinal]

theorem WellFormed.declaration {field : Field} (h : field.WellFormed) :
    field.declaration.WellFormed where
  visibility := h.visibility
  few := length_flags ..
  modifiers := fun _ hword => mem_modifiers hword
  type := h.type.qualified
  noModifier := fun _ hword =>
    leadingWord_ne_of_avoids (MemberType.isTypeList h.type).avoids (fieldModifiers_subset _ hword)
  name := h.name.simple
  value := fun _ hvalue => absurd hvalue (Option.not_mem_none _)

end Field

theorem readField?_text {field : Field} (h : field.WellFormed) :
    readField? field.text = some field.meaning := by
  rw [← field.text_declaration, ← field.meaning_declaration]
  exact readField?_declared h.declaration

/-! ### Methods -/

/-- A written parameter as a parameter of a signature. -/
def Parameter.formal (parameter : Parameter) : FormalParameter :=
  { type := parameter.type, name := parameter.name }

/-- A written method as a signature. -/
def Method.signature (method : Method) : Signature :=
  { visibility := method.visibility, modifiers := method.modifiers, type := method.type
    name := method.name, parameters := method.parameters.map Parameter.formal }

namespace Parameter

variable (parameter : Parameter)

theorem text_formal : parameter.formal.text = parameter.text := by
  simp [formal, FormalParameter.text, FormalParameter.words, FormalParameter.bare,
    FormalParameter.typeText, ellipsis, spaced, text]

theorem meaning_formal : parameter.formal.meaning = parameter.meaning := by
  simp [formal, FormalParameter.meaning, FormalParameter.typeText, ellipsis, meaning]

end Parameter

namespace Method

theorem text_signature (method : Method) : method.signature.text = method.text := by
  simp [signature, Signature.text, Signature.words, arguments, throwsClause, Written.parameterList,
    text, words, parameterList, Function.comp_def, Parameter.text_formal]

theorem meaning_signature (method : Method) : method.signature.meaning = method.meaning := by
  obtain ⟨hstatic, habstract⟩ := method.contains_modifiers
  rw [Signature.meaning, meaning, signature, hstatic, habstract, List.map_map]
  simp only [Function.comp_def, Parameter.meaning_formal]

theorem WellFormed.signature {method : Method} (h : method.WellFormed) :
    method.signature.WellFormed where
  visibility := h.visibility
  few := length_flags ..
  modifiers := fun _ hword => mem_modifiers hword
  type := h.type.qualified
  name := h.name.simple
  parameters := by
    refine List.forall_mem_map.mpr fun parameter hparameter => ?_
    obtain ⟨htype, hname⟩ := h.parameters parameter hparameter
    exact ⟨htype.qualified, hname.simple⟩
  exceptions := List.forall_mem_nil _

end Method

theorem readMethod?_text {method : Method} {owner : Text} (h : method.WellFormed)
    (howner : method.name ≠ owner) : readMethod? method.text owner = some method.meaning := by
  have hread : readMethod? method.text owner
      = if method.name = owner then none else some method.signature.meaning := by
    rw [← method.text_signature]
    exact readMethod?_signature h.signature owner
  rw [hread, if_neg howner, method.meaning_signature]

theorem Method.getLast?_text (method : Method) : method.text.getLast? = some ')' := by
  have htext : method.text = (spaced method.words ++ (method.type.text ++ ' ' :: (method.name ++
      '(' :: method.parameterList))) ++ [')'] := by
    simp [Method.text]
  rw [htext, List.getLast?_concat]

/-- A method is no field. -/
theorem readField?_method {method : Method} (h : method.WellFormed) :
    readField? method.text = none := by
  have hequals : '=' ∉ method.text := not_mem_of_forall (Method.isMemberChar h) (by decide)
  have hmatch : Grammar.field.matchStart? method.text = none := by
    refine matchStart?_eq_none_iff.mpr fun mid hmid => ?_
    -- Modifiers, type and blanks lead to the name, and only a value can stand behind it.
    obtain ⟨here, ⟨front, hfront, -, -⟩, hmid⟩ := exists_leads_of_mem_reached_all 5 hmid
    obtain ⟨_, hnoted, hmid⟩ := mem_reached_all_cons.mp hmid
    obtain ⟨_, hname, rfl⟩ := mem_reached_noted.mp hnoted
    obtain ⟨name, rest, hrest, hne, hword, rfl⟩ := mem_reached_atLeastOne.mp hname
    rw [Place.rest_start, hrest] at hfront
    have hend : rest = [] ∨ rest = ['\n'] := by
      obtain ⟨there, hvalue, hfinish⟩ := mem_reached_all_cons.mp hmid
      rcases mem_reached_opt.mp hvalue with hvalue | rfl
      · refine absurd hvalue (not_mem_reached_spaces_lit (fun hmem => hequals ?_) there)
        rw [hfront]
        exact List.mem_append_right _ (List.mem_append_right _ hmem)
      · have hfinish := (mem_reached_finish.mp hfinish).1
        have hfinish : rest == [] || rest == ['\n'] := hfinish
        simpa using hfinish
    have hlast : method.text.getLast? = some ')' := Method.getLast?_text method
    rw [hfront] at hlast
    rcases hend with rfl | rfl
    · rw [List.append_nil, List.getLast?_append_of_ne_nil _ hne] at hlast
      exact absurd (hword ')' (List.mem_of_getLast? hlast)) (by decide)
    · rw [← List.append_assoc, List.getLast?_concat] at hlast
      exact absurd hlast (by decide)
  rw [readField?, hmatch]
  rfl

/-- A text without brackets is no method. -/
theorem readMethod?_of_not_mem {text : Text} (h : '(' ∉ text) (owner : Text) :
    readMethod? text owner = none := by
  have hmatch : Grammar.method.matchStart? text = none := by
    refine Option.eq_none_iff_forall_not_mem.mpr fun found hfound => ?_
    obtain ⟨front, gap, blanks, rest, rfl, -⟩ := exists_name_of_method hfound
    exact h (by simp)
  rw [readMethod?, hmatch]
  rfl

end Diagrams.Code.Written
