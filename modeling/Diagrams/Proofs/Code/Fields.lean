/-
Declarations of fields.

Up to its name a field is read like a signature: the words in front are taken one by one, and the
type goes up to the space behind it.  Behind the name the pattern only wants to know whether it can
come to the end, and nothing is noted on the way there.  A value can be passed over in many ways;
that there is one is enough (`exists_run_value`).  So a declaration is read as the field that it
stands for, and its value does not matter (`readField?_initialised`).
-/
import Diagrams.Proofs.Code.Signature

namespace Diagrams.Code.Written

open Pattern

variable {place : Place Slot}

/-! ### What is written -/

/-- A field, with its modifiers in the order in which they are written. -/
structure FieldDeclaration where
  /-- Who may use it. -/
  visibility : Uml.Visibility := .packageAccess
  /-- The modifiers. -/
  modifiers : List String := []
  /-- Its type. -/
  type : MemberType
  /-- Its name. -/
  name : Text
  /-- Its value, if it is given one. -/
  value : Option Text := none

/-- The value with its equals sign; nothing if there is none. -/
def valueClause (value : Option Text) : Text :=
  value.elim [] fun value => ' ' :: '=' :: ' ' :: value

namespace FieldDeclaration

/-- The declaration, without its semicolon. -/
def text (declaration : FieldDeclaration) : Text :=
  spaced (visibilityWords declaration.visibility ++ declaration.modifiers) ++
    (declaration.type.text ++ ' ' :: (declaration.name ++ valueClause declaration.value))

/-- The field that is declared. -/
def meaning (declaration : FieldDeclaration) : Uml.Field :=
  { name := declaration.name, type := declaration.type.text, visibility := declaration.visibility
    isStatic := declaration.modifiers.contains "static"
    isFinal := declaration.modifiers.contains "final" }

/-- A declaration has at most two modifiers, a type and a name that are no keywords, and a value
that is not empty.  No word in front of the type may be taken for one more modifier. -/
structure WellFormed (declaration : FieldDeclaration) : Prop where
  visibility : IsKnown declaration.visibility
  few : declaration.modifiers.length ≤ 2
  modifiers : ∀ modifier ∈ declaration.modifiers, modifier ∈ Grammar.fieldModifiers
  type : declaration.type.Qualified
  noModifier : ∀ word ∈ Grammar.fieldModifiers, leadingWord declaration.type.text ≠ word.toList
  name : IsSimpleName declaration.name
  value : ∀ value ∈ declaration.value, value ≠ []

end FieldDeclaration

/-! ### The value -/

/-- What may stand behind the name of a field. -/
def valueEnd : Pattern Slot :=
  all [opt (all [spaces, lit '=', spaces, atLeastOne fun _ => true]), finish]

section

variable {value : Option Text} (hvalue : ∀ given ∈ value, given ≠ [])
  (hrest : place.rest = valueClause value)

include hvalue hrest

/-- A value leads to the end, one way or another. -/
theorem exists_mem_reached_value : ∃ last, last ∈ valueEnd.reached place := by
  cases value with
  | none =>
      have hfinish : place.atFinish = true := by
        rw [Place.atFinish, hrest]
        rfl
      refine ⟨place, mem_reached_all_cons.mpr ⟨place, mem_reached_opt.mpr (.inr rfl), ?_⟩⟩
      exact mem_reached_finish.mpr ⟨hfinish, rfl⟩
  | some value =>
      let equals := place.past [' '] ('=' :: ' ' :: value)
      let space := equals.past ['='] (' ' :: value)
      let start := space.past [' '] value
      let last := start.past value []
      have hequals : equals ∈ (spaces : Pattern Slot).reached place :=
        mem_reached_many.mpr ⟨[' '], _, hrest, forall_blank_space, rfl⟩
      have hspace : space ∈ (lit '=' : Pattern Slot).reached equals :=
        mem_reached_lit.mpr ⟨_, rfl, rfl⟩
      have hstart : start ∈ (spaces : Pattern Slot).reached space :=
        mem_reached_many.mpr ⟨[' '], _, rfl, forall_blank_space, rfl⟩
      have hlast : last ∈ (atLeastOne fun _ => true : Pattern Slot).reached start :=
        mem_reached_atLeastOne.mpr
          ⟨value, [], (List.append_nil value).symm, hvalue value rfl, fun _ _ => rfl, rfl⟩
      refine ⟨last, mem_reached_all_cons.mpr ⟨last, mem_reached_opt.mpr (.inl ?_), ?_⟩⟩
      · exact mem_reached_all_cons.mpr ⟨equals, hequals, mem_reached_all_cons.mpr ⟨space, hspace,
          mem_reached_all_cons.mpr ⟨start, hstart, hlast⟩⟩⟩
      · exact mem_reached_finish.mpr ⟨rfl, rfl⟩

/-- A value is passed over, and nothing in it is noted. -/
theorem exists_run_value : ∃ last, valueEnd.run place some = some last ∧
    ∀ first slot, (Match.mk first last).text? slot = (Match.mk first place).text? slot := by
  obtain ⟨mid, hmid⟩ := exists_mem_reached_value hvalue hrest
  cases hrun : valueEnd.run place some with
  | none => exact absurd hmid (run_some_eq_none_iff.mp hrun mid)
  | some last =>
      refine ⟨last, rfl, fun first slot => ?_⟩
      have hslot : valueEnd.mayNote slot = false := by cases slot <;> decide
      exact text?_of_mem_reached hslot (mem_reached_of_run hrun)

end

/-! ### The whole declaration -/

/-- A word is at the front of a type alone as it is with a space behind it. -/
theorem leadingWord_typed {type : MemberType} (h : type.Qualified) (after : Text) :
    leadingWord (type.text ++ ' ' :: after) = leadingWord type.text := by
  obtain ⟨first, -, hleading⟩ := exists_leadingWord h
  have hbare := hleading [] (by simp)
  rw [List.append_nil] at hbare
  rw [hbare, hleading _ (forall_head?_cons (by decide) after)]

section

variable {declaration : FieldDeclaration} (h : declaration.WellFormed)

include h

/-- The declaration matches, and what is noted is what is written. -/
theorem exists_match_field : ∃ found : Match Slot,
    Grammar.field.matchStart? declaration.text = some found ∧
      found.text .type = declaration.type.text ∧ found.text .name = declaration.name ∧
      visibilityOf found = declaration.visibility ∧
      ∀ modifier, hasModifier found modifier = declaration.modifiers.contains modifier := by
  have htyped : IsTypeText declaration.type.text := h.type.isTypeText
  have hkeywords : ∀ word ∈ knownVisibilities, word ∈ memberKeywords := by decide
  have hfree : ∀ word ∈ Grammar.fieldModifiers ++ knownVisibilities,
      leadingWord (declaration.type.text ++
        ' ' :: (declaration.name ++ valueClause declaration.value)) ≠ word.toList := by
    intro word hword
    rw [leadingWord_typed h.type]
    rcases List.mem_append.mp hword with hmodifier | hvisible
    · exact h.noModifier word hmodifier
    · rw [← leadingWord_typed h.type []]
      exact leadingWord_type h.type (forall_head?_cons (by decide) _) (hkeywords word hvisible)
  obtain ⟨place, hrest, hwords, hrun⟩ := exists_leading declaration.visibility h.few h.modifiers
    (by decide) (by decide) (fun c hc => isBlank_of_isWordChar (htyped.head? _ c hc)) hfree
  have hafter : ∀ c ∈ (valueClause declaration.value).head?, isWordChar c = false := by
    cases declaration.value with
    | none => exact fun c hc => absurd hc (by simp [valueClause])
    | some value => exact forall_head?_cons (by decide) _
  obtain ⟨last, hlast, hsame⟩ := exists_run_value h.value
    (show (typed place declaration.type.text declaration.name _).rest
      = valueClause declaration.value from rfl)
  let start : Place Slot := .start declaration.text
  have hmatch : Grammar.field.run start some = some last :=
    hrun _ _ _ (run_typed htyped h.name hrest hafter hlast)
  obtain ⟨hvisibility, hfirst, hsecond⟩ := hwords start
  have hseen : ∀ {slot : Slot}, slot ≠ .type → slot ≠ .name →
      (Match.mk start last).text? slot = (Match.mk start place).text? slot :=
    fun htype hname => (hsame start _).trans (text?_typed_of_ne htype hname)
  refine ⟨⟨start, last⟩, ?_, ?_, ?_, ?_, ?_⟩
  · rw [matchStart?, matchAt?, hmatch]
    rfl
  · rw [Match.text, hsame, text?_typed_type]
    rfl
  · rw [Match.text, hsame, text?_typed_name]
    rfl
  · exact visibilityOf_eq h.visibility ((hseen (by decide) (by decide)).trans hvisibility)
  · exact hasModifier_eq h.few ((hseen (by decide) (by decide)).trans hfirst)
      ((hseen (by decide) (by decide)).trans hsecond)

theorem readField?_declared : readField? declaration.text = some declaration.meaning := by
  obtain ⟨found, hfound, htype, hname, hvisibility, hmodifier⟩ := exists_match_field h
  rw [readField?, hfound, Option.bind_some]
  simp only [htype, hname, hvisibility, hmodifier, not_reserved h.type,
    h.type.isTypeText.normalizeType_eq_self, Bool.false_eq_true, if_false]
  rfl

/-- **A declaration of a field is read as the field that it stands for, and so it is with any other
value.** -/
theorem readField?_initialised :
    readField? declaration.text = some declaration.meaning ∧
      ∀ value, value ≠ [] →
        readField? { declaration with value := some value }.text = readField? declaration.text := by
  have hhere := readField?_declared h
  refine ⟨hhere, fun value hvalue => ?_⟩
  have hother : { declaration with value := some value }.WellFormed :=
    { h with value := fun other hother => Option.some.inj hother ▸ hvalue }
  rw [hhere]
  exact readField?_declared hother

end

/-- A field with arguments in the arguments of its type, and with a value that looks like a further
declaration. -/
def cacheDeclaration : FieldDeclaration :=
  { visibility := .privateAccess, modifiers := ["final", "static"]
    type := ⟨⟨"Map".toList, some "K, List<java.util.Date[]>".toList⟩, 1⟩, name := "cache".toList
    value := some "a < b[0] ? List<C> x = d : > y".toList }

theorem wellFormed_cacheDeclaration : cacheDeclaration.WellFormed where
  visibility := nofun
  few := by decide
  modifiers := by decide
  type := by
    have hname : IsQualifiedName "java.util.Date".toList :=
      @IsQualifiedName.dotted "java".toList "util.Date".toList (by decide)
        (@IsQualifiedName.dotted "util".toList "Date".toList (by decide) (.simple (by decide)))
    refine ⟨.simple (by decide), ?_⟩
    rintro _ ⟨⟩
    exact .append (@IsQualifiedList.plain "K".toList 0 (.simple (by decide)))
      (@IsQualifiedList.generic "List".toList _ 0 (.simple (by decide)) (.plain 1 hname))
  noModifier := by decide
  name := by decide
  value := by decide

theorem readField?_initialised_cache :
    cacheDeclaration.text = ("private final static Map<K, List<java.util.Date[]>>[] cache " ++
      "= a < b[0] ? List<C> x = d : > y").toList ∧
    readField? cacheDeclaration.text = some
      { name := "cache".toList, type := "Map<K, List<java.util.Date[]>>[]".toList
        visibility := .privateAccess, isStatic := true, isFinal := true } ∧
    readField? { cacheDeclaration with value := some "null".toList }.text
      = readField? cacheDeclaration.text :=
  ⟨rfl, (readField?_initialised wellFormed_cacheDeclaration).1,
    (readField?_initialised wellFormed_cacheDeclaration).2 "null".toList (by decide)⟩

end Diagrams.Code.Written
