/-
Written types, as texts.

A type in the head of a declaration has closed angle brackets, so a list of such types is cut at the
commas between them, and what is left of each is its name (`typeList_typeNames`).  A type is in its
normal spelling if a space stands behind each comma and nowhere else
(`CommaSpaced.normalizeType_eq_self`).
-/
import Diagrams.Proofs.Code.TypeList
import Diagrams.Proofs.Code.Written

namespace Diagrams.Code.Written

/-! ### Names -/

namespace IsName

variable {name : Text}

theorem isWordChar (h : IsName name) : ∀ c ∈ name, isWordChar c = true :=
  isWordChar_of_isIdentifier h.identifier

theorem ne_nil (h : IsName name) : name ≠ [] := ne_nil_of_isIdentifier h.identifier

theorem isBlank (h : IsName name) : ∀ c ∈ name, isBlank c = false :=
  fun c hc => isBlank_of_isWordChar (h.isWordChar c hc)

theorem solid (h : IsName name) : Solid name := .of_forall h.ne_nil h.isBlank

theorem avoids (h : IsName name) : Avoids languageWords name := .word h.isWordChar h.noWord

/-- A text that starts with a name starts with a letter or a low line. -/
theorem head? (h : IsName name) (rest : Text) :
    ∀ c ∈ (name ++ rest).head?, Diagrams.isWordChar c = true :=
  forall_head?_append h.ne_nil h.isWordChar rest

end IsName

theorem languageWords_ne_nil : ∀ word ∈ languageWords, word.toList ≠ [] := by decide

/-! ### The characters and words of types -/

/-- The characters of types. -/
def isTypeChar (c : Char) : Bool :=
  isWordChar c || [',', ' ', '<', '>', '[', ']'].contains c

theorem isTypeChar_of_isWordChar {c : Char} (h : isWordChar c = true) : isTypeChar c = true := by
  simp [isTypeChar, h]

theorem mem_squares {n : Nat} {c : Char} (h : c ∈ squares n) : c = '[' ∨ c = ']' := by
  induction n with
  | zero => exact absurd h List.not_mem_nil
  | succ n ih =>
      rcases List.mem_cons.mp h with hopen | h
      · exact .inl hopen
      · exact (List.mem_cons.mp h).elim .inr ih

theorem isTypeChar_squares (n : Nat) : ∀ c ∈ squares n, isTypeChar c = true := by
  intro c hc
  rcases mem_squares hc with rfl | rfl <;> decide

/-- A text without a word character in front of other words keeps them apart. -/
theorem avoids_squares {words : List String} (hne : ∀ word ∈ words, word.toList ≠ []) (n : Nat) :
    Avoids words (squares n) := by
  induction n with
  | zero => exact .nil hne
  | succ n ih => exact .cons hne (by decide) (.cons hne (by decide) ih)

theorem avoids_append_squares {words : List String} {text : Text}
    (hne : ∀ word ∈ words, word.toList ≠ []) (h : Avoids words text) (n : Nat) :
    Avoids words (text ++ squares n) := by
  cases n with
  | zero => simpa [squares] using h
  | succ n => exact h.append_cons (by decide) (.cons hne (by decide) (avoids_squares hne n))

/-- Between texts that are listed there is a comma and a space. -/
theorem avoids_joined {pieces : List Text} (h : ∀ piece ∈ pieces, Avoids languageWords piece) :
    Avoids languageWords (Text.joined separator pieces) := by
  induction pieces with
  | nil => exact .nil languageWords_ne_nil
  | cons piece pieces ih =>
      obtain ⟨hpiece, hpieces⟩ := List.forall_mem_cons.mp h
      cases pieces with
      | nil => simpa using hpiece
      | cons next others =>
          rw [Text.joined_cons_cons]
          exact hpiece.append_cons (by decide) (.cons languageWords_ne_nil (by decide) (ih hpieces))

theorem IsArguments.isTypeChar {arguments : Text} (h : IsArguments arguments) :
    ∀ c ∈ arguments, isTypeChar c = true := by
  induction h with
  | nil => exact fun c hc => absurd hc List.not_mem_nil
  | plain allowed _ ih =>
      refine List.forall_mem_cons.mpr ⟨?_, ih⟩
      rcases allowed with hword | rfl | rfl
      · exact isTypeChar_of_isWordChar hword
      · decide
      · decide
  | group _ _ ihInner ih =>
      intro c hc
      simp only [List.mem_cons, List.mem_append] at hc
      rcases hc with rfl | hc | rfl | hc
      · decide
      · exact ihInner c hc
      · decide
      · exact ih c hc

namespace IsTypeList

variable {text : Text}

theorem isTypeChar (h : IsTypeList text) : ∀ c ∈ text, isTypeChar c = true := by
  induction h with
  | plain dimensions isName =>
      intro c hc
      rcases List.mem_append.mp hc with hc | hc
      · exact isTypeChar_of_isWordChar (isName.isWordChar c hc)
      · exact isTypeChar_squares dimensions c hc
  | generic dimensions isName _ ih =>
      intro c hc
      simp only [List.mem_cons, List.mem_append] at hc
      rcases hc with hc | rfl | hc | rfl | hc
      · exact isTypeChar_of_isWordChar (isName.isWordChar c hc)
      · decide
      · exact ih c hc
      · decide
      · exact isTypeChar_squares dimensions c hc
  | append _ _ ihFirst ih =>
      intro c hc
      rcases List.mem_append.mp hc with hc | hc
      · exact ihFirst c hc
      · rcases List.mem_append.mp hc with hc | hc
        · have hseparator : ∀ c ∈ separator, Written.isTypeChar c = true :=
            List.forall_mem_cons.mpr ⟨by decide, List.forall_mem_singleton.mpr (by decide)⟩
          exact hseparator c hc
        · exact ih c hc

theorem avoids (h : IsTypeList text) : Avoids languageWords text := by
  induction h with
  | plain dimensions isName =>
      exact avoids_append_squares languageWords_ne_nil isName.avoids dimensions
  | generic dimensions isName _ ih =>
      exact isName.avoids.append_cons (by decide)
        (ih.append_cons (by decide) (avoids_squares languageWords_ne_nil dimensions))
  | append _ _ ihFirst ih =>
      exact ihFirst.append_cons (by decide) (.cons languageWords_ne_nil (by decide) ih)

end IsTypeList

/-- The type of a member is a list of one type. -/
theorem MemberType.isTypeList {type : MemberType} (h : type.WellFormed) : IsTypeList type.text := by
  obtain ⟨⟨name, arguments⟩, dimensions⟩ := type
  cases arguments with
  | none => simpa [text, TypeName.text] using IsTypeList.plain dimensions h.name
  | some arguments =>
      simpa [text, TypeName.text] using
        IsTypeList.generic dimensions h.name (h.arguments arguments rfl)

/-! ### Types in heads -/

theorem isListMark_of_isWordChar {c : Char} (h : isWordChar c = true) : isListMark c = false := by
  cases hmark : isListMark c with
  | false => rfl
  | true =>
      obtain (rfl | rfl) | rfl : (c = ',' ∨ c = '<') ∨ c = '>' := by simpa [isListMark] using hmark
      all_goals exact absurd h (by decide)

theorem IsArguments.isBalanced {arguments : Text} (h : IsArguments arguments) :
    IsBalanced arguments := by
  induction h with
  | nil => exact .of_forall (List.forall_mem_nil _)
  | @plain c rest allowed _ ih =>
      have hplain : c ≠ '<' ∧ c ≠ '>' := by
        rcases allowed with hword | rfl | rfl
        · have hmark := isListMark_of_isWordChar hword
          simp only [isListMark, Bool.or_eq_false_iff, beq_eq_false_iff_ne] at hmark
          exact ⟨hmark.1.2, hmark.2⟩
        · decide
        · decide
      have hfirst : IsBalanced [c] := .of_forall (List.forall_mem_singleton.mpr hplain)
      exact hfirst.append ih
  | group _ _ ihInner ih => simpa using ihInner.group.append ih

namespace TypeName

variable {type : TypeName}

/-- The type in a list, behind a gap. -/
def listed (gap : Text) (type : TypeName) : ListedType where
  before := gap
  name := type.name
  arguments := type.arguments.map fun inside => { inside }

theorem text_listed (gap : Text) (type : TypeName) : (type.listed gap).text = gap ++ type.text := by
  obtain ⟨name, arguments⟩ := type
  cases arguments <;> simp [listed, ListedType.text, ListedType.core, TypeArguments.text, text]

theorem wellFormed_listed {gap : Text} (hgap : ∀ c ∈ gap, isBlank c = true) (h : type.WellFormed) :
    (type.listed gap).WellFormed where
  before := hgap
  after := List.forall_mem_nil _
  nonempty := h.name.ne_nil
  name := fun c hc => ⟨h.name.isBlank c hc, isListMark_of_isWordChar (h.name.isWordChar c hc)⟩
  arguments := by
    intro arguments harguments
    obtain ⟨inside, hinside, rfl⟩ := Option.map_eq_some_iff.mp harguments
    exact ⟨List.forall_mem_nil _, (h.arguments inside hinside).1.isBalanced⟩

theorem solid (h : type.WellFormed) : Solid type.text := by
  obtain ⟨name, arguments⟩ := type
  cases arguments with
  | none => simpa [text] using h.name.solid
  | some arguments =>
      exact h.name.solid.append ('<' :: arguments)
        (.of_forall (List.cons_ne_nil '>' []) (List.forall_mem_singleton.mpr (by decide)))

theorem isTypeChar (h : type.WellFormed) : ∀ c ∈ type.text, isTypeChar c = true := by
  obtain ⟨name, arguments⟩ := type
  intro c hc
  rcases List.mem_append.mp hc with hc | hc
  · exact isTypeChar_of_isWordChar (h.name.isWordChar c hc)
  · cases arguments with
    | none => exact absurd hc List.not_mem_nil
    | some arguments =>
        simp only [List.mem_cons, List.mem_append, List.not_mem_nil, or_false] at hc
        rcases hc with rfl | hc | rfl
        · decide
        · exact (h.arguments arguments rfl).1.isTypeChar c hc
        · decide

theorem avoids (h : type.WellFormed) : Avoids languageWords type.text := by
  obtain ⟨name, arguments⟩ := type
  cases arguments with
  | none => simpa [text] using h.name.avoids
  | some arguments =>
      exact h.name.avoids.append_cons (by decide)
        ((h.arguments arguments rfl).2.append_cons (by decide) (.nil languageWords_ne_nil))

end TypeName

/-- A list of types is read as the list of their names. -/
theorem typeList_typeNames {types : List TypeName} (h : ∀ type ∈ types, type.WellFormed) :
    typeList (typeNames types) = types.map TypeName.name := by
  cases types with
  | nil => rfl
  | cons type types =>
      obtain ⟨htype, htypes⟩ := List.forall_mem_cons.mp h
      have hlisted : ∀ entry ∈ type.listed [] :: types.map (TypeName.listed [' ']),
          entry.WellFormed := by
        refine List.forall_mem_cons.mpr
          ⟨TypeName.wellFormed_listed (List.forall_mem_nil _) htype, ?_⟩
        intro entry hentry
        obtain ⟨next, hnext, rfl⟩ := List.mem_map.mp hentry
        exact TypeName.wellFormed_listed (List.forall_mem_singleton.mpr (by decide))
          (htypes next hnext)
      have htext : typeNames (type :: types) = Text.joined [',']
          ((type.listed [] :: types.map (TypeName.listed [' '])).map ListedType.text) := by
        show Text.joined ([','] ++ [' ']) (type.text :: types.map TypeName.text) = _
        rw [Text.joined_append, List.map_cons, List.map_map, List.map_map]
        simp [Function.comp_def, TypeName.text_listed]
      have hnames := map_withoutArguments_typePieces (List.cons_ne_nil _ _) hlisted
      rw [← htext, List.map_cons, List.map_map] at hnames
      exact typeList_of_typePieces hnames fun name hname => by
        obtain ⟨member, hmember, rfl⟩ := List.mem_map.mp
          (show name ∈ (type :: types).map TypeName.name from hname)
        exact (h member hmember).name.ne_nil

/-! ### The normal spelling -/

/-- Stretches without blanks and commas, with a comma and a space between neighbours. -/
inductive CommaSpaced : Text → Prop
  | word {word : Text} (nonempty : word ≠ []) (plain : ∀ c ∈ word, isBlank c = false ∧ c ≠ ',') :
      CommaSpaced word
  | cons {word rest : Text} (nonempty : word ≠ [])
      (plain : ∀ c ∈ word, isBlank c = false ∧ c ≠ ',') (others : CommaSpaced rest) :
      CommaSpaced (word ++ ',' :: ' ' :: rest)

namespace CommaSpaced

variable {front rest text : Text}

/-- Put together without a comma, the last stretch of one text and the first of the other are
one. -/
theorem adjacent (h : CommaSpaced front) (hrest : CommaSpaced rest) :
    CommaSpaced (front ++ rest) := by
  induction h with
  | word hne hplain =>
      cases hrest with
      | word hne' hplain' =>
          exact .word (by simp [hne]) (List.forall_mem_append.mpr ⟨hplain, hplain'⟩)
      | cons hne' hplain' others =>
          rw [← List.append_assoc]
          exact .cons (by simp [hne]) (List.forall_mem_append.mpr ⟨hplain, hplain'⟩) others
  | cons hne hplain _ ih =>
      rw [List.append_assoc, List.cons_append, List.cons_append]
      exact .cons hne hplain ih

theorem append (h : CommaSpaced front) (hrest : CommaSpaced rest) :
    CommaSpaced (front ++ (separator ++ rest)) := by
  induction h with
  | word hne hplain => exact .cons hne hplain hrest
  | cons hne hplain _ ih =>
      rw [List.append_assoc, List.cons_append, List.cons_append]
      exact .cons hne hplain ih

theorem singleSpaced (h : CommaSpaced text) : SingleSpaced text := by
  induction h with
  | word hne hplain => exact .word hne fun c hc => (hplain c hc).1
  | @cons word rest hne hplain _ ih =>
      have hword : ∀ c ∈ word ++ [','], isBlank c = false := by
        refine List.forall_mem_append.mpr ⟨fun c hc => (hplain c hc).1, ?_⟩
        exact List.forall_mem_singleton.mpr (by decide)
      rw [List.append_cons]
      exact .append (.word (by simp) hword) ih

/-- A space behind each comma and nowhere else is the normal spelling. -/
theorem normalizeType_eq_self (h : CommaSpaced text) : normalizeType text = text := by
  have hword : ∀ {word : Text}, (∀ c ∈ word, isBlank c = false ∧ c ≠ ',') →
      word.flatMap (fun c => if c = ',' then [',', ' '] else [c]) = word := by
    intro word hplain
    induction word with
    | nil => rfl
    | cons c word ih =>
        obtain ⟨⟨-, hc⟩, hword⟩ := List.forall_mem_cons.mp hplain
        rw [List.flatMap_cons, if_neg hc, ih hword]
        rfl
  induction h with
  | word hne hplain =>
      unfold normalizeType Text.respaced
      rw [Text.words_of_forall hne fun c hc => (hplain c hc).1]
      exact hword hplain
  | @cons word rest hne hplain others ih =>
      have hsolid : ∀ c ∈ word ++ [','], isBlank c = false := by
        refine List.forall_mem_append.mpr ⟨fun c hc => (hplain c hc).1, ?_⟩
        exact List.forall_mem_singleton.mpr (by decide)
      have hwords : (word ++ ',' :: ' ' :: rest).words = (word ++ [',']) :: rest.words := by
        rw [List.append_cons, Text.words_append_cons (by decide),
          Text.words_of_forall (by simp) hsolid]
        rfl
      obtain ⟨next, later, hnext⟩ := List.exists_cons_of_ne_nil others.singleSpaced.words_ne_nil
      have hrespaced : (word ++ ',' :: ' ' :: rest).respaced isCloseInType
          = (word ++ [',']) ++ rest.respaced isCloseInType := by
        unfold Text.respaced
        have hne : next ≠ [] := by
          have hmem : next ∈ rest.words := by simp [hnext]
          simpa using (List.mem_filter.mp hmem).2
        obtain ⟨d, next, rfl⟩ := List.exists_cons_of_ne_nil hne
        have hclose : isCloseInType ',' d = true := rfl
        rw [hwords, hnext, Text.respaceWords, List.getLast?_concat]
        simp [hclose]
      unfold normalizeType at ih ⊢
      rw [hrespaced, List.flatMap_append, ih, List.flatMap_append, hword hplain]
      simp

end CommaSpaced

end Diagrams.Code.Written
