/-
Lists of types.

The supertypes in the head of a declaration are cut at the commas outside of their type arguments,
and from each piece its arguments are cut off again.  The first of these counts angle brackets, the
second looks for the first and the last one, and they agree on every type whose arguments close
their brackets in the order in which they open them (`IsBalanced`), whatever else stands there.

That such a type is not cut needs less: its brackets are closed, and one is open at each of its
commas (`IsUncut`).  This property is told of a whole from its parts, so the types of a list are the
pieces of the list (`typePieces_joined`), and their names are what is read (`typeList_listed`).
-/
import Mathlib.Data.List.Infix
import Diagrams.Code.TypeName
import Diagrams.Proofs.Text.Slices

namespace Diagrams.Code

/-! ### Counting brackets -/

/-- Each closing angle bracket closes one that is open, and none stays open. -/
structure IsBalanced (text : Text) : Prop where
  /-- As many brackets are closed as are opened. -/
  closed : text.count '<' = text.count '>'
  /-- No front of the text closes more brackets than it opens. -/
  never : ∀ front, front <+: text → front.count '>' ≤ front.count '<'

instance (text : Text) : Decidable (IsBalanced text) :=
  decidable_of_iff (text.count '<' = text.count '>' ∧
      ∀ front ∈ text.inits, front.count '>' ≤ front.count '<')
    ⟨fun h => ⟨h.1, fun front hfront => h.2 front ((List.mem_inits front text).mpr hfront)⟩,
      fun h => ⟨h.closed, fun front hfront =>
        h.never front ((List.mem_inits front text).mp hfront)⟩⟩

namespace IsBalanced

variable {front rest text : Text}

theorem of_forall (h : ∀ c ∈ text, c ≠ '<' ∧ c ≠ '>') : IsBalanced text where
  closed := by
    rw [List.count_eq_zero_of_not_mem fun hmem => (h _ hmem).1 rfl,
      List.count_eq_zero_of_not_mem fun hmem => (h _ hmem).2 rfl]
  never := fun front hfront => by
    rw [List.count_eq_zero_of_not_mem fun hmem => (h _ (hfront.subset hmem)).2 rfl]
    exact Nat.zero_le _

theorem append (h : IsBalanced front) (hrest : IsBalanced rest) : IsBalanced (front ++ rest) where
  closed := by rw [List.count_append, List.count_append, h.closed, hrest.closed]
  never := by
    intro near hnear
    rcases List.prefix_or_prefix_of_prefix hnear (List.prefix_append front rest) with hshort | hlong
    · exact h.never near hshort
    · obtain ⟨middle, rfl⟩ := hlong
      have hmiddle := hrest.never middle ((List.prefix_append_right_inj front).mp hnear)
      have hclosed := h.closed
      rw [List.count_append, List.count_append]
      omega

theorem group (h : IsBalanced text) : IsBalanced ('<' :: (text ++ ['>'])) where
  closed := by simp [h.closed]
  never := by
    intro near hnear
    rcases List.prefix_cons_iff.mp hnear with rfl | ⟨near, rfl, hinner⟩
    · exact Nat.le_refl 0
    · have hle : near.count '>' ≤ near.count '<' + 1 := by
        rcases List.prefix_concat_iff.mp hinner with rfl | hinside
        · simp [h.closed]
        · exact Nat.le_succ_of_le (h.never near hinside)
      simpa using hle

end IsBalanced

/-- A scan counts the open angle brackets. -/
theorem foldl_angleDepth (depth : Int) (text : Text) :
    text.foldl angleDepth depth = depth + text.count '<' - text.count '>' := by
  induction text generalizing depth with
  | nil => simp
  | cons c text ih =>
      rw [List.foldl_cons, ih]
      grind [angleDepth]

/-! ### Where a list is cut -/

/-- The pieces of a list of types. -/
abbrev typePieces (text : Text) : List Text :=
  Text.piecesBy angleDepth (fun depth c => c == ',' && depth == 0) 0 text

/-- All brackets are closed, and one is open at each comma. -/
structure IsUncut (text : Text) : Prop where
  /-- As many brackets are closed as are opened. -/
  closed : text.count '<' = text.count '>'
  /-- In front of a comma fewer are closed than are opened. -/
  within : ∀ near far, text = near ++ ',' :: far → near.count '>' < near.count '<'

namespace IsUncut

variable {front rest text : Text}

theorem of_forall (h : ∀ c ∈ text, c ≠ ',' ∧ c ≠ '<' ∧ c ≠ '>') : IsUncut text where
  closed := (IsBalanced.of_forall fun c hc => (h c hc).2).closed
  within := by
    rintro near far rfl
    exact absurd rfl (h ',' (by simp)).1

theorem append (h : IsUncut front) (hrest : IsUncut rest) : IsUncut (front ++ rest) where
  closed := by rw [List.count_append, List.count_append, h.closed, hrest.closed]
  within := by
    intro near far heq
    rcases append_eq_append_cons heq with ⟨middle, hfront, -⟩ | ⟨middle, rfl, hback⟩
    · exact h.within near middle hfront
    · have hmiddle := hrest.within middle far hback
      have hclosed := h.closed
      rw [List.count_append, List.count_append]
      omega

/-- Between brackets there are no cuts. -/
theorem bracketed (h : IsBalanced text) : IsUncut ('<' :: (text ++ ['>'])) where
  closed := h.group.closed
  within := by
    intro near far heq
    cases near with
    | nil => exact absurd (List.cons.inj heq).1 (by decide)
    | cons c near =>
        obtain ⟨rfl, hinner⟩ := List.cons.inj heq
        rcases append_eq_append_cons hinner with ⟨middle, rfl, -⟩ | ⟨middle, -, hback⟩
        · have hle := h.never near (List.prefix_append near _)
          rw [List.count_cons_of_ne (by decide), List.count_cons_self]
          omega
        · exact absurd (hback ▸ List.mem_append_cons_self : ',' ∈ ['>']) (by decide)

theorem cuts_eq_nil (h : IsUncut text) :
    Text.cuts angleDepth (fun depth c => c == ',' && depth == 0) 0 text = [] := by
  unfold Text.cuts
  rw [List.filter_eq_nil_iff]
  intro place hplace hcut
  have hlt : place < text.length := List.mem_range.mp hplace
  obtain ⟨hcomma, hdepth⟩ : text[place] = ',' ∧ (text.take (place + 1)).foldl angleDepth 0 = 0 := by
    simpa [Text.cutsAt, hlt] using hcut
  have hopen : (text.take place).count '>' < (text.take place).count '<' := by
    refine h.within (text.take place) (text.drop (place + 1)) ?_
    rw [← hcomma, List.getElem_cons_drop, List.take_append_drop]
  have hnone : [','].count '<' = 0 ∧ [','].count '>' = 0 := by decide
  rw [List.take_succ_eq_append_getElem hlt, hcomma, foldl_angleDepth, List.count_append,
    List.count_append, hnone.1, hnone.2] at hdepth
  omega

/-- A text without cuts is the start of a piece, and what follows is cut as if it stood alone. -/
theorem typePieces_append (h : IsUncut text) (rest : Text) :
    typePieces (text ++ rest) = Text.prepended text (typePieces rest) := by
  have hdepth : text.foldl angleDepth 0 = 0 := by
    have hclosed := h.closed
    rw [foldl_angleDepth]
    omega
  rw [typePieces, Text.piecesBy_append, Text.piecesBy_of_uncut h.cuts_eq_nil, hdepth]
  rfl

end IsUncut

/-- A list of texts without cuts is cut between them. -/
theorem typePieces_joined {entries : List Text} (hne : entries ≠ [])
    (h : ∀ entry ∈ entries, IsUncut entry) : typePieces (Text.joined [','] entries) = entries := by
  induction entries with
  | nil => exact absurd rfl hne
  | cons entry entries ih =>
      obtain ⟨hentry, hentries⟩ := List.forall_mem_cons.mp h
      cases entries with
      | nil =>
          have halone := hentry.typePieces_append []
          rw [List.append_nil] at halone
          rw [Text.joined_singleton, halone]
          simp [Text.piecesBy]
      | cons next others =>
          have hcut : typePieces (',' :: Text.joined [','] (next :: others))
              = [] :: typePieces (Text.joined [','] (next :: others)) :=
            Text.piecesBy_cons_of_cut (by decide) _
          rw [Text.joined_cons_cons, hentry.typePieces_append, List.singleton_append, hcut,
            ih (List.cons_ne_nil _ _) hentries, Text.prepended_cons, List.append_nil]

/-! ### Listed types -/

/-- The arguments of a type. -/
structure TypeArguments where
  /-- The blanks in front of the opening bracket. -/
  gap : Text := []
  /-- What stands between the brackets. -/
  inside : Text

/-- The arguments with their brackets. -/
def TypeArguments.text (arguments : TypeArguments) : Text :=
  arguments.gap ++ '<' :: (arguments.inside ++ ['>'])

/-- A type in a list, with the blanks around it. -/
structure ListedType where
  /-- The blanks in front. -/
  before : Text := []
  /-- The name. -/
  name : Text
  /-- The arguments, if there are any. -/
  arguments : Option TypeArguments := none
  /-- The blanks behind. -/
  after : Text := []

namespace ListedType

/-- The type without the blanks around it. -/
def core (type : ListedType) : Text := type.name ++ type.arguments.elim [] TypeArguments.text

/-- The type as it stands in the list. -/
def text (type : ListedType) : Text := type.before ++ (type.core ++ type.after)

end ListedType

/-- The marks that a list of types is cut by. -/
def isListMark (c : Char) : Bool := c == ',' || c == '<' || c == '>'

/-- Blanks, and what closes its brackets between the brackets. -/
structure TypeArguments.WellFormed (arguments : TypeArguments) : Prop where
  gap : ∀ c ∈ arguments.gap, isBlank c = true
  inside : IsBalanced arguments.inside

/-- Blanks around the type, and a name without blanks and marks. -/
structure ListedType.WellFormed (type : ListedType) : Prop where
  before : ∀ c ∈ type.before, isBlank c = true
  after : ∀ c ∈ type.after, isBlank c = true
  nonempty : type.name ≠ []
  name : ∀ c ∈ type.name, isBlank c = false ∧ isListMark c = false
  arguments : ∀ arguments ∈ type.arguments, arguments.WellFormed

-- `List.all` reads the text only: `∀ c ∈ text` can also be decided by going through every `Char`.
instance (arguments : TypeArguments) : Decidable arguments.WellFormed :=
  decidable_of_iff (arguments.gap.all isBlank = true ∧ IsBalanced arguments.inside)
    ⟨fun h => ⟨List.all_eq_true.mp h.1, h.2⟩, fun h => ⟨List.all_eq_true.mpr h.gap, h.inside⟩⟩

instance (type : ListedType) : Decidable type.WellFormed :=
  decidable_of_iff (type.before.all isBlank = true ∧ type.after.all isBlank = true ∧
      type.name ≠ [] ∧ (type.name.all fun c => !isBlank c && !isListMark c) = true ∧
      ∀ arguments ∈ type.arguments.toList, arguments.WellFormed)
    ⟨fun h => ⟨List.all_eq_true.mp h.1, List.all_eq_true.mp h.2.1, h.2.2.1,
        by simpa using h.2.2.2.1, by simpa using h.2.2.2.2⟩,
      fun h => ⟨List.all_eq_true.mpr h.before, List.all_eq_true.mpr h.after, h.nonempty,
        by simpa using h.name, by simpa using h.arguments⟩⟩

theorem isUncut_of_blank {gap : Text} (h : ∀ c ∈ gap, isBlank c = true) : IsUncut gap := by
  refine .of_forall fun c hc => ⟨?_, ?_, ?_⟩ <;>
    · rintro rfl
      exact absurd (h _ hc) (by decide)

namespace ListedType.WellFormed

variable {type : ListedType}

theorem isUncut (h : type.WellFormed) : IsUncut type.text := by
  have hname : IsUncut type.name :=
    .of_forall fun c hc => by simpa [isListMark, and_assoc] using (h.name c hc).2
  have harguments : IsUncut (type.arguments.elim [] TypeArguments.text) := by
    cases hcase : type.arguments with
    | none => exact .of_forall (List.forall_mem_nil _)
    | some arguments =>
        obtain ⟨hgap, hinside⟩ := h.arguments arguments hcase
        exact (isUncut_of_blank hgap).append (.bracketed hinside)
  exact (isUncut_of_blank h.before).append
    ((hname.append harguments).append (isUncut_of_blank h.after))

theorem trim_text (h : type.WellFormed) : type.text.trim = type.core := by
  refine Text.trim_between h.before h.after ?_ ?_
  · exact forall_head?_append h.nonempty (fun c hc => (h.name c hc).1) _
  · unfold core
    cases type.arguments with
    | none =>
        intro c hc
        rw [Option.elim_none, List.append_nil] at hc
        exact (h.name c (List.mem_of_getLast? hc)).1
    | some arguments =>
        intro c hc
        have hlast : '>' = c := by
          simpa [TypeArguments.text, List.getLast?_append, List.getLast?_cons] using hc
        exact hlast ▸ (by decide)

/-- What is left of a type without its arguments is its name. -/
theorem withoutArguments_text (h : type.WellFormed) : withoutArguments type.text = type.name := by
  have hblank : ∀ c ∈ type.name, isBlank c = false := fun c hc => (h.name c hc).1
  have hopening : '<' ∉ type.name := fun hmem => absurd (h.name _ hmem).2 (by decide)
  unfold withoutArguments
  rw [h.trim_text]
  unfold core
  cases hcase : type.arguments with
  | none => simp [hopening]
  | some arguments =>
      obtain ⟨hgap, -⟩ := h.arguments arguments hcase
      have hcut : (type.name ++ arguments.text).takeWhile (· != '<')
          = type.name ++ arguments.gap := by
        rw [TypeArguments.text, ← List.append_assoc]
        refine takeWhile_append_of_stop (fun c hc => ?_) (by simp)
        have hne : c ≠ '<' := by
          rintro rfl
          rcases List.mem_append.mp hc with hname | hspace
          · exact hopening hname
          · exact absurd (hgap _ hspace) (by decide)
        simpa using hne
      have hlast : (type.name ++ arguments.text).getLast? = some '>' := by
        simp [TypeArguments.text, List.getLast?_append, List.getLast?_cons]
      have hmem : (type.name ++ arguments.text).contains '<' = true := by simp [TypeArguments.text]
      have hname : Text.trim ([] ++ (type.name ++ arguments.gap)) = type.name :=
        Text.trim_between (List.forall_mem_nil _) hgap
          (fun c hc => hblank c (List.mem_of_mem_head? hc))
          (fun c hc => hblank c (List.mem_of_getLast? hc))
      simp only [Option.elim_some, hlast, hmem, hcut, decide_true, Bool.and_true, if_true]
      exact hname

end ListedType.WellFormed

section

variable {types : List ListedType}

theorem map_withoutArguments_typePieces (hne : types ≠ []) (h : ∀ type ∈ types, type.WellFormed) :
    (typePieces (Text.joined [','] (types.map ListedType.text))).map withoutArguments
      = types.map ListedType.name := by
  have huncut : ∀ entry ∈ types.map ListedType.text, IsUncut entry := by
    intro entry hentry
    obtain ⟨type, htype, rfl⟩ := List.mem_map.mp hentry
    exact (h type htype).isUncut
  rw [typePieces_joined (by simpa using hne) huncut, List.map_map]
  exact List.map_congr_left fun type htype => (h type htype).withoutArguments_text

/-- None of the names that are read is left out. -/
theorem typeList_of_typePieces {text : Text} {names : List Text}
    (h : (typePieces text).map withoutArguments = names) (hne : ∀ name ∈ names, name ≠ []) :
    typeList text = names := by
  show ((typePieces text).map withoutArguments).filter _ = names
  rw [h, List.filter_eq_self]
  exact fun name hname => by simpa using hne name hname

/-- **A list of types, whatever stands in their arguments and whatever blanks are around them, is
read as the list of their names.** -/
theorem typeList_listed (h : ∀ type ∈ types, type.WellFormed) :
    typeList (Text.joined [','] (types.map ListedType.text)) = types.map ListedType.name := by
  by_cases hne : types = []
  · subst hne
    rfl
  · refine typeList_of_typePieces (map_withoutArguments_typePieces hne h) fun name hname => ?_
    obtain ⟨type, htype, rfl⟩ := List.mem_map.mp hname
    exact (h type htype).nonempty

end

/-- Commas, a line break and further types in the arguments, and blanks around the types. -/
def nestedList : List ListedType :=
  [{ name := "Comparable".toList, arguments := some { inside := "Map<K, V>".toList }
     after := [' '] },
    { before := ['\n', ' '], name := "java.util.List".toList
      arguments := some { gap := [' '], inside := "K,\n Set<V>".toList } },
    { name := "Serializable".toList }]

theorem wellFormed_nestedList : ∀ type ∈ nestedList, type.WellFormed := by
  refine List.forall_mem_cons.mpr ⟨?comparable, List.forall_mem_cons.mpr ⟨?list,
    List.forall_mem_singleton.mpr ?serializable⟩⟩
  case comparable => decide
  case list => decide
  case serializable => decide

theorem typeList_listed_nested :
    Text.joined [','] (nestedList.map ListedType.text)
      = "Comparable<Map<K, V>> ,\n java.util.List <K,\n Set<V>>,Serializable".toList ∧
    typeList (Text.joined [','] (nestedList.map ListedType.text))
      = ["Comparable".toList, "java.util.List".toList, "Serializable".toList] :=
  ⟨rfl, typeList_listed wellFormed_nestedList⟩

end Diagrams.Code
