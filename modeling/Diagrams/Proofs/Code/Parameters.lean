/-
A list of parameters and how it is read.

The list is read in two steps.  First the words that keep a parameter from being changed are
taken away.  Such a word stands in front of a type, and nowhere else does it stand by itself,
for no name is a keyword; so what is left is the list without them (`replaceAll_finalWord`).
Then the parameters are found one after the other: each is a type up to the space behind it
and a name up to a comma or the end (`run_parameter`).  The search looks for them anywhere in
the list, but behind a comma there is only a space before the next one, so it finds each where
it starts (`finds_parameters`).
-/
import Diagrams.Code.Member
import Diagrams.Proofs.Code.LeadingWords
import Diagrams.Proofs.Pattern.Replace
import Diagrams.Proofs.Pattern.Stretch

namespace Diagrams.Code.Written

open Pattern

variable {place : Place Slot} {next : Continuation Slot} {found : Place Slot}

/-! ### A type and a name -/

/-- The place behind a type and a name. -/
def typed (place : Place Slot) (type name after : Text) : Place Slot :=
  ((place.past (type ++ ' ' :: name) after).marked .type type (' ' :: (name ++ after))).marked
    .name name after

/-- A type and a name are matched whole, wherever they stand. -/
theorem run_typed {type name after : Text} {ps : List (Pattern Slot)}
    (htype : IsTypeText type) (hname : IsSimpleName name)
    (hrest : place.rest = type ++ ' ' :: (name ++ after))
    (hafter : ∀ c ∈ after.head?, isWordChar c = false)
    (hnext : (all ps).run (typed place type name after) next = some found) :
    (all (noted .type Grammar.type :: gap :: noted .name Pattern.name :: ps)).run place next
      = some found := by
  have hblank : ∀ mid : Place Slot, (∀ c ∈ mid.rest.head?, isBlank c = false) →
      (all (gap :: noted .name Pattern.name :: ps)).run (Place.note .type place mid)
        next = none := by
    intro mid hmid
    have hgap : Opens isBlank (gap : Pattern Slot) := .atLeastOne
    have hstop : ∀ c ∈ (Place.note .type place mid).rest.head?, isBlank c = false := hmid
    exact run_eq_none (hgap.all.not_mem hstop)
  rw [run_all_cons, run_noted]
  refine htype.run_type hrest (hname.head? after) hblank ?_
  rw [Place.note_past _ hrest, run_all_cons]
  refine run_gap_space rfl (fun c hc => isBlank_of_isWordChar (hname.head? after c hc)) ?_
  rw [run_all_cons, run_noted]
  refine run_atLeastOne rfl hname.ne_nil hname.isWordChar hafter ?_
  rw [Place.note_past _ rfl]
  simpa [typed] using hnext

section

variable {first : Place Slot} {type name after : Text}

@[simp] theorem text?_typed_name :
    (Match.mk first (typed place type name after)).text? .name = some name :=
  Match.text?_marked_self ..

@[simp] theorem text?_typed_type :
    (Match.mk first (typed place type name after)).text? .type = some type := by
  simp [typed]

theorem text?_typed_of_ne {slot : Slot} (htype : slot ≠ .type) (hname : slot ≠ .name) :
    (Match.mk first (typed place type name after)).text? slot
      = (Match.mk first place).text? slot := by
  rw [typed, Match.text?_marked_of_ne _ _ hname.symm, Match.text?_marked_of_ne _ _ htype.symm,
    Match.text?_past]

end

/-! ### Parameters -/

/-- A parameter of a signature. -/
structure FormalParameter where
  /-- Whether it keeps its value. -/
  isFinal : Bool := false
  /-- Its type. -/
  type : MemberType
  /-- Whether it takes any number of arguments of the type. -/
  isVariadic : Bool := false
  /-- Its name. -/
  name : Text

namespace FormalParameter

/-- The type with the dots behind it. -/
def typeText (parameter : FormalParameter) : Text :=
  parameter.type.text ++ ellipsis parameter.isVariadic

/-- The type and the name. -/
def bare (parameter : FormalParameter) : Text := parameter.typeText ++ ' ' :: parameter.name

/-- The words in front of the type. -/
def words (parameter : FormalParameter) : List String := if parameter.isFinal then ["final"] else []

/-- The declaration of a parameter. -/
def text (parameter : FormalParameter) : Text := spaced parameter.words ++ parameter.bare

/-- The parameter that is declared. -/
def meaning (parameter : FormalParameter) : Uml.Parameter :=
  { name := parameter.name, type := parameter.typeText }

/-- A parameter has a type and a name. -/
structure WellFormed (parameter : FormalParameter) : Prop where
  type : parameter.type.Qualified
  name : IsSimpleName parameter.name

variable {parameter : FormalParameter}

theorem isTypeText (h : parameter.WellFormed) : IsTypeText parameter.typeText :=
  ⟨parameter.type, h.type, parameter.isVariadic, rfl⟩

theorem avoids_bare (h : parameter.WellFormed) : Avoids memberKeywords parameter.bare :=
  (isTypeText h).avoids.append_cons (by decide) h.name.avoids

theorem head?_bare (h : parameter.WellFormed) (rest : Text) :
    ∀ c ∈ (parameter.bare ++ rest).head?, isWordChar c = true := by
  rw [bare, List.append_assoc]
  exact (isTypeText h).head? _

theorem isTypeArgument (h : parameter.WellFormed) :
    ∀ c ∈ parameter.text, Grammar.isTypeArgument c = true := by
  have hwords : ∀ c ∈ spaced parameter.words, Grammar.isTypeArgument c = true := by
    rw [words]
    cases parameter.isFinal with
    | false => exact List.forall_mem_nil _
    | true => exact List.all_eq_true.mp (by decide)
  have hname : ∀ c ∈ parameter.name, Grammar.isTypeArgument c = true := by
    intro c hc
    simp [Grammar.isTypeArgument, Grammar.isTypeName, Grammar.isDotted, h.name.isWordChar c hc]
  refine List.forall_mem_append.mpr ⟨hwords, List.forall_mem_append.mpr ⟨?_, ?_⟩⟩
  · exact (isTypeText h).isTypeArgument
  · exact List.forall_mem_cons.mpr ⟨by decide, hname⟩

theorem bare_ne_nil (parameter : FormalParameter) : parameter.bare ≠ [] := by simp [bare]

end FormalParameter

/-- Parameters with a comma and a space between neighbours. -/
def parameterList (parameters : List FormalParameter) : Text :=
  Text.joined separator (parameters.map FormalParameter.text)

/-- Parameters without the words in front of their types. -/
def bareList (parameters : List FormalParameter) : Text :=
  Text.joined separator (parameters.map FormalParameter.bare)

theorem isTypeArgument_parameterList {parameters : List FormalParameter}
    (h : ∀ parameter ∈ parameters, parameter.WellFormed) :
    ∀ c ∈ parameterList parameters, Grammar.isTypeArgument c = true := by
  refine Text.forall_mem_joined ?_ ?_
  · exact List.forall_mem_cons.mpr ⟨by decide, List.forall_mem_singleton.mpr (by decide)⟩
  · intro piece hpiece
    obtain ⟨parameter, hparameter, rfl⟩ := List.mem_map.mp hpiece
    exact FormalParameter.isTypeArgument (h parameter hparameter)

/-! ### Words in front of types -/

/-- No keyword stands by itself in a text that avoids them, whatever is around it. -/
theorem matchAt?_finalWord_eq_none {front rest : Text} {before : Option Char}
    (h : Avoids memberKeywords front)
    (hedge : ∀ c ∈ front.getLast?, ∀ d ∈ rest.head?, isWordChar c = true → isWordChar d = false)
    (near : Text) (c : Char) (far : Text) (hsplit : front = near ++ c :: far) (place : Place Slot)
    (hbefore : place.before = near.getLast?.or before) (hrest : place.rest = c :: (far ++ rest)) :
    Grammar.finalWord.matchAt? place = none := by
  refine matchAt?_eq_none_iff.mpr fun mid hmid => ?_
  obtain ⟨_, hhere, hbehind⟩ := mem_reached_all_cons.mp hmid
  obtain ⟨hatEdge, hsame⟩ := mem_reached_wordEdge.mp hhere
  rw [hsame] at hbehind
  obtain ⟨_, hword, hgap⟩ := mem_reached_all_cons.mp hbehind
  obtain ⟨rest', hrest', rfl⟩ := mem_reached_exactly.mp hword
  obtain ⟨d, hd, hblank⟩ := Opens.atLeastOne _ _ hgap
  have hletters : ∀ c ∈ "final".toList, isWordChar c = true := isWordChar_of_isLetters (by decide)
  have hnear : ∀ e ∈ near.getLast?, isWordChar e = false := by
    intro e he
    have hfollows : place.follows isWordChar = false := by
      have hprecedes : place.precedes isWordChar = true := by
        rw [Place.precedes, hrest']
        rfl
      rw [Place.atWordEdge, hprecedes] at hatEdge
      simpa using hatEdge
    rw [Place.follows, hbefore, Option.mem_def.mp he] at hfollows
    exact hfollows
  have htext : (c :: far) ++ rest = "final".toList ++ rest' := hrest.symm.trans hrest'
  rcases List.append_eq_append_iff.mp htext with ⟨middle, hfinal, hbehind⟩ | ⟨middle, hfar, hbehind⟩
  · cases middle with
    | nil =>
        -- The word ends where the text does.
        rw [List.append_nil] at hfinal
        rw [hsplit, ← hfinal, ← List.append_nil "final".toList] at h
        exact h.not_mem (by decide) hletters hnear (by simp)
    | cons e middle =>
        -- The word would go on with characters of the rest.
        have hlast := List.getLast?_eq_some_getLast (List.cons_ne_nil c far)
        have hfront : front.getLast? = (c :: far).getLast? := by
          rw [hsplit, List.getLast?_append_of_ne_nil _ (List.cons_ne_nil c far)]
        have hinside : isWordChar ((c :: far).getLast (List.cons_ne_nil c far)) = true :=
          hletters _ (hfinal ▸ List.mem_append_left _ (List.getLast_mem _))
        have houtside := hedge _ (hfront.trans hlast) e (by rw [hbehind]; rfl) hinside
        rw [hletters e (hfinal ▸ by simp)] at houtside
        exact Bool.noConfusion houtside
  · rw [hsplit, hfar] at h
    refine h.not_mem (by decide) hletters hnear fun e he => ?_
    cases middle with
    | nil => exact absurd he (by simp)
    | cons f middle =>
        obtain rfl : f = e := Option.some.inj he
        obtain rfl : f = d := by
          rw [hbehind] at hd
          exact Option.some.inj hd
        exact isWordChar_of_isBlank hblank

/-- The word in front of a type is taken away with the space behind it. -/
theorem replaceFrom_finalWord_words (isFinal : Bool) {before : Option Char} {rest : Text}
    (offset : Nat) (hbefore : ∀ c ∈ before, isWordChar c = false)
    (hrest : ∀ c ∈ rest.head?, isWordChar c = true) :
    ∃ before' offset', Grammar.finalWord.replaceFrom [] before offset
        (spaced (if isFinal then ["final"] else []) ++ rest)
      = Grammar.finalWord.replaceFrom [] before' offset' rest := by
  cases isFinal with
  | false => exact ⟨before, offset, rfl⟩
  | true =>
      have hrun : Grammar.finalWord.run ⟨before, spaced ["final"] ++ rest, offset, []⟩ some
          = some (((⟨before, spaced ["final"] ++ rest, offset, []⟩ : Place Slot).past "final".toList
              (' ' :: rest)).past [' '] rest) := by
        have hfollows : before.any isWordChar = false := by
          cases before with
          | none => rfl
          | some c => exact hbefore c rfl
        have hedge : (⟨before, spaced ["final"] ++ rest, offset, []⟩ : Place Slot).atWordEdge
            = true := by
          rw [Place.atWordEdge, Place.follows, hfollows]
          rfl
        unfold Grammar.finalWord
        rw [run_all_cons, run_wordEdge hedge, run_all_cons, run_exactly rfl, run_all_cons]
        exact run_gap_space rfl (fun c hc => isBlank_of_isWordChar (hrest c hc)) rfl
      exact ⟨_, _, replaceFrom_append (List.cons_ne_nil _ _) hrun rfl rfl⟩

/-- A parameter loses the word in front of its type, and what stands behind it is told by what
follows. -/
theorem replaceFrom_finalWord_text {parameter : FormalParameter} (h : parameter.WellFormed)
    {before : Option Char} (offset : Nat) (hbefore : ∀ c ∈ before, isWordChar c = false)
    {ending rest : Text} (hending : ending = separator ∨ ending = [] ∧ rest = []) :
    ∃ before' offset', (∀ c ∈ before', isWordChar c = false) ∧
      Grammar.finalWord.replaceFrom [] before offset (parameter.text ++ (ending ++ rest))
        = parameter.bare ++ (ending ++ Grammar.finalWord.replaceFrom [] before' offset' rest) := by
  obtain ⟨before', offset', hword⟩ := replaceFrom_finalWord_words parameter.isFinal offset hbefore
    (FormalParameter.head?_bare h (ending ++ rest))
  have havoids := FormalParameter.avoids_bare h
  rw [FormalParameter.text, FormalParameter.words, List.append_assoc, hword]
  rcases hending with rfl | ⟨rfl, rfl⟩
  · have hfront : Avoids memberKeywords (parameter.bare ++ separator) :=
      havoids.append_cons (by decide)
        (.cons memberKeywords_ne_nil (by decide) (.nil memberKeywords_ne_nil))
    have hlast : (parameter.bare ++ separator).getLast? = some ' ' := by simp [separator]
    have hedge : ∀ c ∈ (parameter.bare ++ separator).getLast?, ∀ d ∈ rest.head?,
        isWordChar c = true → isWordChar d = false := by
      intro c hc d _ hinside
      obtain rfl : ' ' = c := Option.some.inj (hlast.symm.trans hc)
      exact absurd hinside (by decide)
    rw [← List.append_assoc, replaceFrom_append_of_none (matchAt?_finalWord_eq_none hfront hedge),
      List.append_assoc]
    refine ⟨_, _, ?_, rfl⟩
    rw [hlast]
    rintro _ ⟨⟩
    decide
  · have hstays : Grammar.finalWord.replaceFrom [] before' offset' (parameter.bare ++ [])
        = parameter.bare ++ [] :=
      replaceFrom_append_of_none (matchAt?_finalWord_eq_none havoids (by simp))
    exact ⟨none, 0, fun c hc => absurd hc (Option.not_mem_none c), hstays⟩

section

variable (parameter next : FormalParameter) (others : List FormalParameter)

theorem parameterList_cons_cons : parameterList (parameter :: next :: others)
    = parameter.text ++ (separator ++ parameterList (next :: others)) :=
  Text.joined_cons_cons _ _ _ _

theorem bareList_cons_cons : bareList (parameter :: next :: others)
    = parameter.bare ++ (separator ++ bareList (next :: others)) :=
  Text.joined_cons_cons _ _ _ _

end

section

variable {parameters : List FormalParameter} (h : ∀ parameter ∈ parameters, parameter.WellFormed)

include h

theorem replaceFrom_finalWord_parameterList {before : Option Char} (offset : Nat)
    (hbefore : ∀ c ∈ before, isWordChar c = false) :
    Grammar.finalWord.replaceFrom [] before offset (parameterList parameters)
      = bareList parameters := by
  induction parameters generalizing before offset with
  | nil => exact replaceFrom_nil
  | cons parameter parameters ih =>
      obtain ⟨hfirst, hothers⟩ := List.forall_mem_cons.mp h
      cases parameters with
      | nil =>
          obtain ⟨before', offset', -, htext⟩ :=
            @replaceFrom_finalWord_text parameter hfirst before offset hbefore [] []
              (.inr ⟨rfl, rfl⟩)
          rw [replaceFrom_nil] at htext
          simpa [parameterList, bareList] using htext
      | cons next others =>
          obtain ⟨before', offset', hbefore', htext⟩ :=
            @replaceFrom_finalWord_text parameter hfirst before offset hbefore separator
              (parameterList (next :: others)) (.inl rfl)
          rw [parameterList_cons_cons, bareList_cons_cons, htext, ih hothers offset' hbefore']

/-- In a list of parameters the words in front of the types are taken away, and nothing else. -/
theorem replaceAll_finalWord :
    Grammar.finalWord.replaceAll [] (parameterList parameters) = bareList parameters := by
  rw [replaceAll_eq_replaceFrom]
  exact replaceFrom_finalWord_parameterList h 0 fun c hc => absurd hc (Option.not_mem_none c)

end

/-! ### One parameter after the other -/

/-- A parameter is matched whole, with the comma behind it if there is one. -/
theorem run_parameter {parameter : FormalParameter} {ending after : Text} (h : parameter.WellFormed)
    (hending : ending = [','] ∨ ending = [] ∧ after = [])
    (hrest : place.rest = parameter.bare ++ (ending ++ after)) :
    Grammar.parameter.run place some
      = some ((typed place parameter.typeText parameter.name (ending ++ after)).past
        ending after) := by
  have htext : place.rest
      = parameter.typeText ++ ' ' :: (parameter.name ++ (ending ++ after)) := by
    simpa [FormalParameter.bare] using hrest
  have hstop : ∀ c ∈ (ending ++ after).head?, isWordChar c = false ∧ isBlank c = false := by
    rcases hending with rfl | ⟨rfl, rfl⟩
    · intro c hc
      obtain rfl : ',' = c := by simpa using hc
      decide
    · intro c hc
      simp at hc
  refine run_typed (FormalParameter.isTypeText h) h.name htext (fun c hc => (hstop c hc).1) ?_
  rw [run_all_cons, run_spaces_of_stop fun c hc => (hstop c hc).2, run_all_cons, run_oneOf_cons]
  rcases hending with rfl | ⟨rfl, rfl⟩
  · rw [run_lit rfl, run_all_nil]
    rfl
  · have hnone : ∀ mid, ¬ mid ∈ (lit ',' : Pattern Slot).reached
        (typed place parameter.typeText parameter.name []) :=
      (Opens.lit ',').not_mem (by simp [typed])
    rw [List.append_nil, run_eq_none hnone, Option.none_or]
    show (finish : Pattern Slot).run _ _ = _
    rw [run_finish_of_nil rfl, run_all_nil]
    exact congrArg some (Place.past_nil rfl).symm

/-- What is read off the match of a parameter. -/
def parameterOf (found : Match Slot) : Uml.Parameter :=
  { name := found.text .name, type := normalizeType (found.text .type) }

/-- A parameter is found where it stands. -/
theorem finds_parameter {parameter : FormalParameter} {ending after : Text}
    (h : parameter.WellFormed) (hending : ending = [','] ∨ ending = [] ∧ after = []) :
    Grammar.parameter.Finds parameterOf (parameter.bare ++ ending) after [parameter.meaning] := by
  refine .of_run (List.append_ne_nil_of_left_ne_nil parameter.bare_ne_nil _) ?_
  intro place hrest
  rw [List.append_assoc] at hrest
  refine ⟨_, run_parameter h hending hrest, ?_, ?_⟩
  · simp [typed, FormalParameter.bare, Nat.add_assoc]
  · simp [parameterOf, Match.text, FormalParameter.meaning,
      (FormalParameter.isTypeText h).normalizeType_eq_self]

/-- No parameter starts with a space. -/
theorem skips_space (rest : Text) : Grammar.parameter.Skips [' '] rest := by
  have htype : Opens Grammar.isTypeName Grammar.type := Opens.atLeastOne.all
  refine .cons (fun place hrest => matchAt?_eq_none_iff.mpr (htype.noted.all.not_mem ?_)) .nil
  rw [hrest]
  exact forall_head?_cons (by decide) _

section

variable {parameters : List FormalParameter} (h : ∀ parameter ∈ parameters, parameter.WellFormed)

include h

/-- The parameters of a list are found one after the other. -/
theorem finds_parameters : Grammar.parameter.Finds parameterOf (bareList parameters) []
    (parameters.map FormalParameter.meaning) := by
  induction parameters with
  | nil => exact Skips.nil.finds
  | cons parameter parameters ih =>
      obtain ⟨hfirst, hothers⟩ := List.forall_mem_cons.mp h
      cases parameters with
      | nil => simpa [bareList] using finds_parameter hfirst (.inr ⟨rfl, rfl⟩)
      | cons next others =>
          have hlist : bareList (parameter :: next :: others)
              = (parameter.bare ++ [',']) ++ ([' '] ++ bareList (next :: others)) := by
            rw [bareList_cons_cons]
            simp [separator]
          rw [hlist]
          exact (finds_parameter hfirst (.inl rfl)).append
            ((skips_space _).finds.append (ih hothers))

theorem readParameters_parameterList :
    readParameters (parameterList parameters) = parameters.map FormalParameter.meaning := by
  rw [readParameters, replaceAll_finalWord h]
  exact (finds_parameters h).map_findAll

end

end Diagrams.Code.Written
