/-
Signatures of methods and constructors.

The text of a signature fixes every step of the match: the words in front are taken one by one, the
type goes up to the space behind it, the name up to the opening bracket, the parameters up to the
closing one, and the exceptions to the end.  So a signature is read as the method that it stands
for (`readMethod?_signature`).

A constructor has no type, but the match does not know that: it takes the word for the visibility
for one.  Whatever it takes, the word in front of the bracket is the name, and that is the name of
the class (`text_name_of_constructor`).
-/
import Diagrams.Proofs.Code.MemberCut
import Diagrams.Proofs.Code.Parameters

namespace Diagrams.Code.Written

open Pattern

variable {place : Place Slot} {next : Continuation Slot} {found : Place Slot}

/-! ### What is written -/

/-- The exceptions with their word; nothing if there are none. -/
def throwsClause (exceptions : List Text) : Text :=
  if exceptions.isEmpty then [] else ' ' :: (spaced ["throws"] ++ Text.joined separator exceptions)

/-- The parameters in round brackets and the exceptions behind them. -/
def arguments (parameters : List FormalParameter) (exceptions : List Text) : Text :=
  '(' :: (parameterList parameters ++ ')' :: throwsClause exceptions)

/-- A method without its block. -/
structure Signature where
  /-- Who may use it. -/
  visibility : Uml.Visibility := .packageAccess
  /-- The modifiers, in the order in which they are written. -/
  modifiers : List String := []
  /-- The type of its result. -/
  type : MemberType
  /-- Its name. -/
  name : Text
  /-- Its parameters. -/
  parameters : List FormalParameter := []
  /-- The exceptions that it may throw. -/
  exceptions : List Text := []

namespace Signature

/-- The words in front of the type. -/
def words (signature : Signature) : List String :=
  visibilityWords signature.visibility ++ signature.modifiers

/-- The declaration of the method. -/
def text (signature : Signature) : Text :=
  spaced signature.words ++ (signature.type.text ++ ' ' :: (signature.name ++
    arguments signature.parameters signature.exceptions))

/-- The method that is declared. -/
def meaning (signature : Signature) : Uml.Method :=
  { name := signature.name, returnType := signature.type.text
    parameters := signature.parameters.map FormalParameter.meaning
    visibility := signature.visibility, isStatic := signature.modifiers.contains "static"
    isAbstract := signature.modifiers.contains "abstract" }

/-- A signature has at most two modifiers, and types and names that are no keywords. -/
structure WellFormed (signature : Signature) : Prop where
  visibility : IsKnown signature.visibility
  few : signature.modifiers.length ≤ 2
  modifiers : ∀ modifier ∈ signature.modifiers, modifier ∈ Grammar.methodModifiers
  type : signature.type.Qualified
  name : IsSimpleName signature.name
  parameters : ∀ parameter ∈ signature.parameters, parameter.WellFormed
  exceptions : ∀ exception ∈ signature.exceptions, IsQualifiedName exception

end Signature

/-- A constructor without its block. -/
structure Constructor where
  /-- Who may use it. -/
  visibility : Uml.Visibility := .packageAccess
  /-- The name of the class. -/
  name : Text
  /-- Its parameters. -/
  parameters : List FormalParameter := []
  /-- The exceptions that it may throw. -/
  exceptions : List Text := []

/-- The declaration of a constructor. -/
def Constructor.text (ctor : Constructor) : Text :=
  spaced (visibilityWords ctor.visibility) ++
    (ctor.name ++ arguments ctor.parameters ctor.exceptions)

/-! ### The words in front -/

section

variable {found : Match Slot} {visibility : Uml.Visibility} {modifiers : List String}

theorem visibilityOf_eq (h : IsKnown visibility)
    (htext : found.text? .visibility = (visibilityWords visibility).head?.map String.toList) :
    visibilityOf found = visibility := by
  unfold visibilityOf
  rw [htext]
  cases visibility with
  | publicAccess => decide
  | privateAccess => decide
  | protectedAccess => decide
  | packageAccess => rfl
  | unknown word => exact absurd rfl (h word)

theorem hasModifier_eq (hlength : modifiers.length ≤ 2)
    (hfirst : found.text? .firstModifier = modifiers[0]?.map String.toList)
    (hsecond : found.text? .secondModifier = modifiers[1]?.map String.toList) (modifier : String) :
    hasModifier found modifier = modifiers.contains modifier := by
  unfold hasModifier
  rw [hfirst, hsecond]
  match modifiers, hlength with
  | [], _ => simp
  | [_], _ => simp [String.toList_inj, eq_comm]
  | [_, _], _ => simp [String.toList_inj, eq_comm]

end

/-! ### Parameters and exceptions -/

section

variable {exceptions : List Text} (h : ∀ exception ∈ exceptions, IsQualifiedName exception)

include h

theorem isDotted_joined : ∀ c ∈ Text.joined separator exceptions,
    (Grammar.isDotted c || c == ',' || isBlank c) = true := by
  refine Text.forall_mem_joined ?_ ?_
  · exact List.forall_mem_cons.mpr ⟨by decide, List.forall_mem_singleton.mpr (by decide)⟩
  · intro exception hexception c hc
    simp [(h exception hexception).isDotted c hc]

theorem joined_ne_nil (hne : exceptions ≠ []) : Text.joined separator exceptions ≠ [] := by
  obtain ⟨first, others, rfl⟩ := List.exists_cons_of_ne_nil hne
  have hfirst := (h first List.mem_cons_self).ne_nil
  cases others with
  | nil => simpa using hfirst
  | cons next others =>
      rw [Text.joined_cons_cons]
      exact List.append_ne_nil_of_left_ne_nil hfirst _

theorem head?_joined (hne : exceptions ≠ []) :
    ∀ c ∈ (Text.joined separator exceptions).head?, isWordChar c = true := by
  obtain ⟨first, others, rfl⟩ := List.exists_cons_of_ne_nil hne
  have hfirst := h first List.mem_cons_self
  cases others with
  | nil =>
      rw [Text.joined_singleton, ← List.append_nil first]
      exact hfirst.head? []
  | cons next others =>
      rw [Text.joined_cons_cons]
      exact hfirst.head? _

/-- The exceptions are matched to the end. -/
theorem run_throwsClause (hrest : place.rest = throwsClause exceptions) :
    exceptionsEnd.run place some = some (place.past (throwsClause exceptions) []) := by
  unfold exceptionsEnd
  by_cases hnone : exceptions = []
  · subst hnone
    have hempty : place.rest = [] := hrest
    have hthrows : ∀ mid, ¬ mid ∈ (all [spaces, exactly "throws", gap,
        atLeastOne fun c => Grammar.isDotted c || c == ',' || isBlank c]).reached place :=
      (Opens.exactly rfl).not_mem_spaces (by decide) (by simp [hempty])
    rw [run_all_cons, run_opt_of_none (run_eq_none hthrows), run_all_cons, run_finish_of_nil hempty,
      run_all_nil]
    exact congrArg some (Place.past_nil hempty).symm
  · have hclause : throwsClause exceptions
        = ' ' :: ("throws".toList ++ ' ' :: (Text.joined separator exceptions ++ [])) := by
      simp [throwsClause, hnone, spaced]
    have hhead := head?_joined h hnone
    rw [hclause] at hrest
    rw [run_all_cons]
    refine run_opt_of_some ?_
    rw [run_all_cons]
    refine run_spaces_space hrest (by decide) ?_
    rw [run_all_cons, run_exactly rfl, run_all_cons]
    refine run_gap_space rfl ?_ ?_
    · rw [List.append_nil]
      exact fun c hc => isBlank_of_isWordChar (hhead c hc)
    · rw [run_all_cons]
      refine run_atLeastOne rfl (joined_ne_nil h hnone) (isDotted_joined h) (by simp) ?_
      rw [run_all_nil, run_all_cons, run_finish_of_nil rfl, run_all_nil, hclause]
      simp

end

/-- The place behind the parameters and exceptions. -/
def argued (place : Place Slot) (parameters : List FormalParameter) (exceptions : List Text) :
    Place Slot :=
  (((place.past ['('] (parameterList parameters ++ ')' :: throwsClause exceptions)).past
    (parameterList parameters) (')' :: throwsClause exceptions)).marked .parameters
      (parameterList parameters) (')' :: throwsClause exceptions)).past
        (')' :: throwsClause exceptions) []

section

variable {parameters : List FormalParameter} {exceptions : List Text} {first : Place Slot}

/-- The parameters are matched up to the bracket that closes them, and the exceptions to the end. -/
theorem run_arguments (hparameters : ∀ parameter ∈ parameters, parameter.WellFormed)
    (hexceptions : ∀ exception ∈ exceptions, IsQualifiedName exception)
    (hrest : place.rest = arguments parameters exceptions) :
    argumentsEnd.run place some = some (argued place parameters exceptions) := by
  have hlist : ∀ c ∈ parameterList parameters, (c != ')') = true := by
    intro c hc
    have hchar := isTypeArgument_parameterList hparameters c hc
    rw [bne_iff_ne]
    rintro rfl
    exact absurd hchar (by decide)
  have hopen : ∀ c ∈ place.rest.head?, isBlank c = false := by
    rw [hrest]
    exact forall_head?_cons (by decide) _
  unfold argumentsEnd
  rw [run_all_cons, run_spaces_of_stop hopen, run_all_cons, run_lit hrest, run_all_cons, run_noted]
  refine run_many_greedy rfl hlist (forall_head?_cons (by decide) _) ?_
  rw [Place.note_past _ rfl, run_all_cons, run_lit rfl, all,
    run_throwsClause hexceptions rfl, argued, Place.past_past]
  rfl

theorem text?_argued_parameters :
    (Match.mk first (argued place parameters exceptions)).text? .parameters
      = some (parameterList parameters) := by
  simp [argued]

theorem text?_argued_of_ne {slot : Slot} (h : slot ≠ .parameters) :
    (Match.mk first (argued place parameters exceptions)).text? slot
      = (Match.mk first place).text? slot := by
  rw [argued, Match.text?_past, Match.text?_marked_of_ne _ _ h.symm, Match.text?_past,
    Match.text?_past]

end

/-! ### Methods -/

/-- The match goes through the signature part by part. -/
theorem exists_run_signature {signature : Signature} (h : signature.WellFormed) :
    ∃ last : Place Slot,
      (∀ first, (Match.mk first last).text? .visibility
          = (visibilityWords signature.visibility).head?.map String.toList ∧
        (Match.mk first last).text? .firstModifier = signature.modifiers[0]?.map String.toList ∧
        (Match.mk first last).text? .secondModifier = signature.modifiers[1]?.map String.toList) ∧
      Grammar.method.run (.start signature.text) some
        = some (argued (typed last signature.type.text signature.name
            (arguments signature.parameters signature.exceptions))
          signature.parameters signature.exceptions) := by
  have hwords : ∀ word ∈ Grammar.methodModifiers ++ knownVisibilities, word ∈ memberKeywords := by
    decide
  have htyped : IsTypeText signature.type.text := h.type.isTypeText
  obtain ⟨last, hrest, hnoted, hrun⟩ := exists_leading signature.visibility h.few h.modifiers
    (by decide) (by decide) (fun c hc => isBlank_of_isWordChar (htyped.head? (' ' ::
      (signature.name ++ arguments signature.parameters signature.exceptions)) c hc))
    (fun word hword => leadingWord_type h.type (forall_head?_cons (by decide) _)
      (hwords word hword))
  have hangle : ∀ mid, ¬ mid ∈ (all [lit '<', many .lazy (fun c => c != '(' && c != ')'), lit '>',
      gap]).reached last := by
    refine (Opens.lit '<').all.not_mem fun c hc => ?_
    rw [hrest] at hc
    rw [beq_eq_false_iff_ne]
    rintro rfl
    exact absurd (htyped.head? _ '<' hc) (by decide)
  refine ⟨last, hnoted, hrun _ _ _ ?_⟩
  rw [run_all_cons, run_opt_of_none (run_eq_none hangle)]
  refine run_typed htyped h.name hrest (forall_head?_cons (by decide) _) ?_
  exact run_arguments h.parameters h.exceptions rfl

/-- A signature is read as the method that it stands for, unless it has the name of the class. -/
theorem readMethod?_signature {signature : Signature} (h : signature.WellFormed) (owner : Text) :
    readMethod? signature.text owner
      = if signature.name = owner then none else some signature.meaning := by
  obtain ⟨last, hnoted, hmatch⟩ := exists_run_signature h
  let place := typed last signature.type.text signature.name
    (arguments signature.parameters signature.exceptions)
  let found : Match Slot :=
    ⟨.start signature.text, argued place signature.parameters signature.exceptions⟩
  have hfound : Grammar.method.matchStart? signature.text = some found := by
    rw [matchStart?, matchAt?, hmatch]
    rfl
  have hseen : ∀ {slot : Slot}, slot ≠ .parameters →
      found.text? slot = (Match.mk (.start signature.text) place).text? slot := text?_argued_of_ne
  have hleading : ∀ {slot : Slot}, slot ≠ .type → slot ≠ .name → slot ≠ .parameters →
      found.text? slot = (Match.mk (.start signature.text) last).text? slot :=
    fun htype hname hlist => (hseen hlist).trans (text?_typed_of_ne htype hname)
  have htype : found.text .type = signature.type.text := by
    rw [Match.text, hseen (by decide), text?_typed_type]
    rfl
  have hname : found.text .name = signature.name := by
    rw [Match.text, hseen (by decide), text?_typed_name]
    rfl
  have hlist : found.text .parameters = parameterList signature.parameters := by
    rw [Match.text, text?_argued_parameters]
    rfl
  obtain ⟨hvisibility, hfirst, hsecond⟩ := hnoted (.start signature.text)
  have hvisible : visibilityOf found = signature.visibility :=
    visibilityOf_eq h.visibility
      ((hleading (by decide) (by decide) (by decide)).trans hvisibility)
  have hmodifier : ∀ modifier, hasModifier found modifier = signature.modifiers.contains modifier :=
    hasModifier_eq h.few ((hleading (by decide) (by decide) (by decide)).trans hfirst)
      ((hleading (by decide) (by decide) (by decide)).trans hsecond)
  rw [readMethod?, hfound, Option.bind_some]
  simp only [htype, hname, hlist, hvisible, hmodifier, not_reserved h.type,
    h.type.isTypeText.normalizeType_eq_self, readParameters_parameterList h.parameters,
    Bool.or_false, decide_eq_true_eq]
  rfl

/-! ### Constructors -/

theorem getLast?_spaced (words : List String) : ∀ c ∈ (spaced words).getLast?, c = ' ' := by
  induction words with
  | nil => exact fun c hc => absurd hc (by simp [spaced])
  | cons word words ih =>
      intro c hc
      rw [spaced, List.getLast?_append_of_ne_nil _ (List.cons_ne_nil _ _), List.getLast?_cons] at hc
      cases hlast : (spaced words).getLast? with
      | none =>
          rw [hlast] at hc
          exact (Option.some.inj hc).symm
      | some d =>
          rw [hlast] at hc
          obtain rfl : d = c := Option.some.inj hc
          exact ih d hlast

theorem not_mem_spaced {words : List String} {c : Char}
    (hwords : ∀ word ∈ words, isLetters word = true)
    (hspace : c ≠ ' ') (hc : isWordChar c = false) : c ∉ spaced words := by
  induction words with
  | nil => exact List.not_mem_nil
  | cons word words ih =>
      obtain ⟨hword, hwords⟩ := List.forall_mem_cons.mp hwords
      have hletters : c ∉ word.toList := not_mem_of_forall (isWordChar_of_isLetters hword) hc
      simp [spaced, hletters, hspace, ih hwords]

/-- Two texts that end with a word and the blanks behind it end with the same word. -/
theorem word_eq_of_append_eq {front front' word word' blanks : Text}
    (h : front ++ word = front' ++ (word' ++ blanks))
    (hfront : ∀ c ∈ front.getLast?, isWordChar c = false)
    (hfront' : ∀ c ∈ front'.getLast?, isWordChar c = false) (hne : word ≠ [])
    (hword : ∀ c ∈ word, isWordChar c = true) (hword' : ∀ c ∈ word', isWordChar c = true)
    (hblanks : ∀ c ∈ blanks, isBlank c = true) : word' = word := by
  have hnone : blanks = [] := by
    by_contra hblank
    have hlast : word.getLast? = blanks.getLast? := by
      rw [← List.getLast?_append_of_ne_nil front hne, h, ← List.append_assoc,
        List.getLast?_append_of_ne_nil _ hblank]
    have hend := List.getLast?_eq_some_getLast hne
    have hletter := hword _ (List.getLast_mem hne)
    rw [isWordChar_of_isBlank (hblanks _ (List.mem_of_getLast? (hlast.symm.trans hend)))] at hletter
    exact Bool.noConfusion hletter
  subst hnone
  rw [List.append_nil] at h
  exact (append_inj_of_stop_behind hword hword' hfront hfront' h).2.symm

/-- The match of a method notes the word in front of the first bracket as the name, with a blank in
front of it. -/
theorem exists_name_of_method {text : Text} {found : Match Slot}
    (h : Grammar.method.matchStart? text = some found) :
    ∃ front gap blanks rest, text = (front ++ gap) ++ (found.text .name ++ blanks) ++ '(' :: rest ∧
      '(' ∉ front ∧ gap ≠ [] ∧ (∀ c ∈ gap, isBlank c = true) ∧
      (∀ c ∈ found.text .name, isWordChar c = true) ∧ ∀ c ∈ blanks, isBlank c = true := by
  obtain ⟨lead, gap, _, rfl, -, ⟨blanks, parameters, exceptions, hblanks, -, -, rfl⟩, hcut⟩ :=
    frames_method.exists_cut h
  exact ⟨lead ++ found.text .type, gap, blanks, parameters ++ ')' :: exceptions, by simp,
    hcut.unsigned, hcut.gapped.nonempty, hcut.gapped.blank, hcut.named.word, hblanks⟩

/-- Whatever the match takes for a type, the name is the word in front of the bracket. -/
theorem text_name_of_constructor {words : List String} {name tail : Text} {found : Match Slot}
    (hwords : ∀ word ∈ words, isLetters word = true) (hname : IsSimpleName name)
    (h : Grammar.method.matchStart? (spaced words ++ (name ++ '(' :: tail)) = some found) :
    found.text .name = name := by
  obtain ⟨front, gap, blanks, rest, htext, hfront, hne, hgap, hword, hblanks⟩ :=
    exists_name_of_method h
  have hblank : ∀ {text : Text}, (∀ c ∈ text, isBlank c = true) → '(' ∉ text :=
    fun hall hmem => absurd (hall '(' hmem) (by decide)
  have hbefore : '(' ∉ spaced words ++ name := by
    intro hmem
    rcases List.mem_append.mp hmem with hmem | hmem
    · exact not_mem_spaced hwords (by decide) (by decide) hmem
    · exact not_mem_of_forall hname.isWordChar (by decide) hmem
  have hbehind : '(' ∉ (front ++ gap) ++ (found.text .name ++ blanks) := by
    have hletters : '(' ∉ found.text .name := not_mem_of_forall hword (by decide)
    simp [hfront, hblank hgap, hletters, hblank hblanks]
  rw [← List.append_assoc] at htext
  obtain ⟨hsame, -⟩ := append_cons_inj_of_not_mem hbefore hbehind htext
  have hspaced : ∀ c ∈ (spaced words).getLast?, isWordChar c = false := by
    intro c hc
    rw [getLast?_spaced words c hc]
    decide
  have hlast : ∀ c ∈ (front ++ gap).getLast?, isWordChar c = false :=
    forall_getLast?_append_of_forall hne (fun c hc => isWordChar_of_isBlank (hgap c hc)) front
  exact word_eq_of_append_eq hsame hspaced hlast hname.ne_nil hname.isWordChar hword hblanks

/-- A constructor is no method of its class, whatever its parameters and exceptions are. -/
theorem readMethod?_constructor {ctor : Constructor} (h : IsSimpleName ctor.name) :
    readMethod? ctor.text ctor.name = none := by
  have hwords : ∀ word ∈ visibilityWords ctor.visibility, isLetters word = true :=
    fun word hword => isLetters_visibilities word (mem_visibilityWords hword)
  rw [readMethod?]
  cases hfound : Grammar.method.matchStart? ctor.text with
  | none => rfl
  | some found =>
      have hname : found.text .name = ctor.name := text_name_of_constructor hwords h hfound
      simp [hname]

/-- Signatures are read as the methods that they stand for, and constructors are not. -/
theorem readMethod?_declaration :
    (∀ signature : Signature, signature.WellFormed → ∀ owner : Text,
      readMethod? signature.text owner
        = if signature.name = owner then none else some signature.meaning) ∧
    ∀ ctor : Constructor, IsSimpleName ctor.name → readMethod? ctor.text ctor.name = none :=
  ⟨fun _ => readMethod?_signature, fun _ => readMethod?_constructor⟩

/-- Any number of keys. -/
def keysParameter : FormalParameter :=
  { type := ⟨⟨"K".toList, none⟩, 0⟩, isVariadic := true, name := "keys".toList }

/-- A method with arguments in the arguments of a type, a parameter that keeps its value, and two
exceptions. -/
def findSignature : Signature :=
  { visibility := .publicAccess, modifiers := ["static"]
    type := ⟨⟨"Map".toList, some "K, java.util.List<V>[]".toList⟩, 0⟩, name := "find".toList
    parameters :=
      [{ isFinal := true, type := ⟨⟨"int".toList, none⟩, 1⟩, name := "at".toList }, keysParameter]
    exceptions := ["java.io.IOException".toList, "E".toList] }

/-- A constructor of the class that the method is in. -/
def indexConstructor : Constructor :=
  { visibility := .protectedAccess, name := "Index".toList, parameters := [keysParameter]
    exceptions := ["E".toList] }

theorem MemberType.Qualified.plain {name : Text} (h : IsSimpleName name) (dimensions : Nat) :
    MemberType.Qualified ⟨⟨name, none⟩, dimensions⟩ :=
  ⟨.simple h, fun _ harguments => absurd harguments (Option.not_mem_none _)⟩

theorem wellFormed_keysParameter : keysParameter.WellFormed := ⟨.plain (by decide) 0, by decide⟩

theorem wellFormed_findSignature : findSignature.WellFormed where
  visibility := nofun
  few := by decide
  modifiers := by decide
  type := by
    have hname : IsQualifiedName "java.util.List".toList :=
      @IsQualifiedName.dotted "java".toList "util.List".toList (by decide)
        (@IsQualifiedName.dotted "util".toList "List".toList (by decide) (.simple (by decide)))
    refine ⟨.simple (by decide), ?_⟩
    rintro _ ⟨⟩
    exact .append (@IsQualifiedList.plain "K".toList 0 (.simple (by decide)))
      (.generic 1 hname (@IsQualifiedList.plain "V".toList 0 (.simple (by decide))))
  name := by decide
  parameters :=
    List.forall_mem_cons.mpr ⟨⟨.plain (by decide) 1, by decide⟩,
      List.forall_mem_singleton.mpr wellFormed_keysParameter⟩
  exceptions := by
    refine List.forall_mem_cons.mpr ⟨?_, List.forall_mem_singleton.mpr (.simple (by decide))⟩
    exact @IsQualifiedName.dotted "java".toList "io.IOException".toList (by decide)
      (@IsQualifiedName.dotted "io".toList "IOException".toList (by decide) (.simple (by decide)))

theorem readMethod?_declaration_find :
    findSignature.text
      = ("public static Map<K, java.util.List<V>[]> find(final int[] at, K... keys) " ++
          "throws java.io.IOException, E").toList ∧
    indexConstructor.text = "protected Index(K... keys) throws E".toList ∧
    readMethod? findSignature.text "Index".toList = some
      { name := "find".toList, returnType := "Map<K, java.util.List<V>[]>".toList
        parameters := [{ name := "at".toList, type := "int[]".toList },
          { name := "keys".toList, type := "K...".toList }]
        visibility := .publicAccess, isStatic := true, isAbstract := false } ∧
    readMethod? findSignature.text "find".toList = none ∧
    readMethod? indexConstructor.text "Index".toList = none :=
  ⟨rfl, rfl, readMethod?_declaration.1 findSignature wellFormed_findSignature "Index".toList,
    readMethod?_declaration.1 findSignature wellFormed_findSignature "find".toList,
    readMethod?_declaration.2 indexConstructor (by decide)⟩

end Diagrams.Code.Written
