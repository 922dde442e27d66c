/-
Types with qualified names.

A type in a signature may name its package: its name is a row of simple names with dots between
them, and so are the names in its type arguments.  None of the simple names is a reserved word or a
modifier, and that is all that reading a member asks of them: the types of written members, whose
names are no words of the language at all, are such types (`MemberType.WellFormed.qualified`).

A type like this is in its normal spelling, and no keyword of members stands in it.
-/
import Diagrams.Proofs.Code.Types

namespace Diagrams.Code.Written

/-! ### Names -/

/-- The words for the visibility and the modifiers of a method. -/
def memberKeywords : List String := Grammar.methodModifiers ++ ["public", "private", "protected"]

/-- An identifier that is neither a reserved word nor a modifier. -/
structure IsSimpleName (name : Text) : Prop where
  identifier : isIdentifier name = true
  notReserved : name ∉ reservedWords
  noKeyword : ∀ word ∈ memberKeywords, name ≠ word.toList

instance (name : Text) : Decidable (IsSimpleName name) :=
  decidable_of_iff (isIdentifier name = true ∧ (∀ word ∈ reservedWords, name ≠ word) ∧
      ∀ word ∈ memberKeywords, name ≠ word.toList)
    ⟨fun h => ⟨h.1, fun hmem => h.2.1 name hmem rfl, h.2.2⟩,
      fun h => ⟨h.identifier, fun _ hmem heq => h.notReserved (heq ▸ hmem), h.noKeyword⟩⟩

/-- Simple names with dots between them. -/
inductive IsQualifiedName : Text → Prop
  | simple {name : Text} (isSimple : IsSimpleName name) : IsQualifiedName name
  | dotted {name rest : Text} (isSimple : IsSimpleName name) (tail : IsQualifiedName rest) :
      IsQualifiedName (name ++ '.' :: rest)

/-- Types with qualified names, with a comma and a space between neighbours. -/
inductive IsQualifiedList : Text → Prop
  | plain {name : Text} (dimensions : Nat) (isName : IsQualifiedName name) :
      IsQualifiedList (name ++ squares dimensions)
  | generic {name arguments : Text} (dimensions : Nat) (isName : IsQualifiedName name)
      (inside : IsQualifiedList arguments) :
      IsQualifiedList (name ++ '<' :: (arguments ++ '>' :: squares dimensions))
  | append {first others : Text} (head : IsQualifiedList first) (tail : IsQualifiedList others) :
      IsQualifiedList (first ++ (separator ++ others))

/-- A type with a qualified name, and with such types as its arguments. -/
structure MemberType.Qualified (type : MemberType) : Prop where
  name : IsQualifiedName type.base.name
  arguments : ∀ arguments ∈ type.base.arguments, IsQualifiedList arguments

/-- The dots behind the type of a parameter that takes any number of arguments. -/
def ellipsis (isVariadic : Bool) : Text := if isVariadic then ['.', '.', '.'] else []

theorem IsName.simple {name : Text} (h : IsName name) : IsSimpleName name where
  identifier := h.identifier
  notReserved := by
    have hsubset : ∀ word ∈ reservedWords, word ∈ languageWords.map String.toList := by decide
    intro hmem
    obtain ⟨word, hword, heq⟩ := List.mem_map.mp (hsubset name hmem)
    exact h.noWord word hword heq.symm
  noKeyword := by
    have hsubset : ∀ word ∈ memberKeywords, word ∈ languageWords := by decide
    exact fun word hword => h.noWord word (hsubset word hword)

theorem IsTypeList.qualified {text : Text} (h : IsTypeList text) : IsQualifiedList text := by
  induction h with
  | plain dimensions isName => exact .plain dimensions (.simple isName.simple)
  | generic dimensions isName _ ih => exact .generic dimensions (.simple isName.simple) ih
  | append _ _ ihFirst ih => exact .append ihFirst ih

theorem MemberType.WellFormed.qualified {type : MemberType} (h : type.WellFormed) :
    type.Qualified where
  name := .simple h.name.simple
  arguments := fun arguments harguments => (h.arguments arguments harguments).qualified

theorem memberKeywords_ne_nil : ∀ word ∈ memberKeywords, word.toList ≠ [] := by decide

namespace IsSimpleName

variable {name : Text}

theorem isWordChar (h : IsSimpleName name) : ∀ c ∈ name, isWordChar c = true :=
  isWordChar_of_isIdentifier h.identifier

theorem ne_nil (h : IsSimpleName name) : name ≠ [] := ne_nil_of_isIdentifier h.identifier

theorem head? (h : IsSimpleName name) (rest : Text) :
    ∀ c ∈ (name ++ rest).head?, Diagrams.isWordChar c = true :=
  forall_head?_append h.ne_nil h.isWordChar rest

theorem avoids (h : IsSimpleName name) : Avoids memberKeywords name :=
  .word h.isWordChar h.noKeyword

end IsSimpleName

namespace IsQualifiedName

variable {name : Text}

theorem isDotted (h : IsQualifiedName name) : ∀ c ∈ name, Grammar.isDotted c = true := by
  have hword : ∀ {name : Text}, IsSimpleName name → ∀ c ∈ name, Grammar.isDotted c = true := by
    intro name isSimple c hc
    simp [Grammar.isDotted, isSimple.isWordChar c hc]
  induction h with
  | simple isSimple => exact hword isSimple
  | dotted isSimple _ ih =>
      exact List.forall_mem_append.mpr ⟨hword isSimple, List.forall_mem_cons.mpr ⟨rfl, ih⟩⟩

/-- A qualified name starts with a simple one. -/
theorem exists_simple (h : IsQualifiedName name) :
    ∃ first rest, name = first ++ rest ∧ IsSimpleName first ∧ ∀ c ∈ rest.head?, c = '.' := by
  cases h with
  | simple isSimple => exact ⟨name, [], by simp, isSimple, fun c hc => absurd hc (by simp)⟩
  | @dotted first rest isSimple _ =>
      exact ⟨first, '.' :: rest, rfl, isSimple, fun c hc => (Option.some.inj hc).symm⟩

theorem ne_nil (h : IsQualifiedName name) : name ≠ [] := by
  obtain ⟨first, rest, rfl, hfirst, -⟩ := h.exists_simple
  simp [hfirst.ne_nil]

theorem head? (h : IsQualifiedName name) (rest : Text) :
    ∀ c ∈ (name ++ rest).head?, isWordChar c = true := by
  obtain ⟨first, others, rfl, hfirst, -⟩ := h.exists_simple
  rw [List.append_assoc]
  exact hfirst.head? _

theorem not_mem {c : Char} (h : IsQualifiedName name)
    (hc : Grammar.isDotted c = false) : c ∉ name :=
  not_mem_of_forall h.isDotted hc

theorem avoids (h : IsQualifiedName name) : Avoids memberKeywords name := by
  induction h with
  | simple isSimple => exact isSimple.avoids
  | dotted isSimple _ ih => exact isSimple.avoids.append_cons (by decide) ih

theorem plain (h : IsQualifiedName name) : ∀ c ∈ name, isBlank c = false ∧ c ≠ ',' := by
  intro c hc
  have hdotted := h.isDotted c hc
  constructor
  · cases hblank : isBlank c with
    | false => rfl
    | true =>
        have hdot : c ≠ '.' := by
          rintro rfl
          exact absurd hblank (by decide)
        simp [Grammar.isDotted, isWordChar_of_isBlank hblank, hdot] at hdotted
  · rintro rfl
    exact absurd hdotted (by decide)

end IsQualifiedName

/-! ### Types -/

theorem plain_squares (n : Nat) : ∀ c ∈ squares n, isBlank c = false ∧ c ≠ ',' := by
  intro c hc
  rcases mem_squares hc with rfl | rfl <;> decide

theorem isTypeArgument_of_isDotted {c : Char} (h : Grammar.isDotted c = true) :
    Grammar.isTypeArgument c = true := by
  simp [Grammar.isTypeArgument, Grammar.isTypeName, h]

theorem isTypeArgument_squares (n : Nat) : ∀ c ∈ squares n, Grammar.isTypeArgument c = true := by
  intro c hc
  rcases mem_squares hc with rfl | rfl <;> decide

namespace IsQualifiedList

variable {text : Text}

theorem isTypeArgument (h : IsQualifiedList text) :
    ∀ c ∈ text, Grammar.isTypeArgument c = true := by
  have hname : ∀ {name : Text}, IsQualifiedName name → ∀ c ∈ name,
      Grammar.isTypeArgument c = true :=
    fun isName c hc => isTypeArgument_of_isDotted (isName.isDotted c hc)
  induction h with
  | plain dimensions isName =>
      exact List.forall_mem_append.mpr ⟨hname isName, isTypeArgument_squares dimensions⟩
  | generic dimensions isName _ ih =>
      refine List.forall_mem_append.mpr ⟨hname isName, List.forall_mem_cons.mpr ⟨by decide, ?_⟩⟩
      exact List.forall_mem_append.mpr
        ⟨ih, List.forall_mem_cons.mpr ⟨by decide, isTypeArgument_squares dimensions⟩⟩
  | append _ _ ihFirst ih =>
      refine List.forall_mem_append.mpr ⟨ihFirst, List.forall_mem_append.mpr ⟨?_, ih⟩⟩
      exact List.forall_mem_cons.mpr ⟨by decide, List.forall_mem_singleton.mpr (by decide)⟩

theorem avoids (h : IsQualifiedList text) : Avoids memberKeywords text := by
  induction h with
  | plain dimensions isName =>
      exact avoids_append_squares memberKeywords_ne_nil isName.avoids dimensions
  | generic dimensions isName _ ih =>
      exact isName.avoids.append_cons (by decide)
        (ih.append_cons (by decide) (avoids_squares memberKeywords_ne_nil dimensions))
  | append _ _ ihFirst ih =>
      exact ihFirst.append_cons (by decide) (.cons memberKeywords_ne_nil (by decide) ih)

theorem commaSpaced (h : IsQualifiedList text) : CommaSpaced text := by
  induction h with
  | plain dimensions isName =>
      exact .word (by simp [isName.ne_nil])
        (List.forall_mem_append.mpr ⟨isName.plain, plain_squares dimensions⟩)
  | @generic name arguments dimensions isName _ ih =>
      have hopen : CommaSpaced (name ++ ['<']) :=
        .word (by simp) (List.forall_mem_append.mpr
          ⟨isName.plain, List.forall_mem_singleton.mpr (by decide)⟩)
      have hclose : CommaSpaced ('>' :: squares dimensions) :=
        .word (by simp) (List.forall_mem_cons.mpr ⟨by decide, plain_squares dimensions⟩)
      have htext := hopen.adjacent (ih.adjacent hclose)
      rwa [List.append_assoc, List.singleton_append] at htext
  | append _ _ ihFirst ih => exact ihFirst.append ih

end IsQualifiedList

namespace MemberType.Qualified

variable {type : MemberType}

/-- A type is a list of one type. -/
theorem isQualifiedList (h : type.Qualified) : IsQualifiedList type.text := by
  obtain ⟨⟨name, arguments⟩, dimensions⟩ := type
  cases arguments with
  | none => simpa [text, TypeName.text] using IsQualifiedList.plain dimensions h.name
  | some arguments =>
      simpa [text, TypeName.text] using
        IsQualifiedList.generic dimensions h.name (h.arguments arguments rfl)

/-- A type starts with a simple name. -/
theorem exists_simple (h : type.Qualified) :
    ∃ first rest, type.text = first ++ rest ∧ IsSimpleName first ∧
      ∀ c ∈ rest.head?, isWordChar c = false := by
  obtain ⟨first, rest, hname, hfirst, hrest⟩ := h.name.exists_simple
  obtain ⟨⟨name, arguments⟩, dimensions⟩ := type
  obtain rfl : name = first ++ rest := hname
  refine ⟨first, rest ++ ((TypeName.mk [] arguments).text ++ squares dimensions),
    by simp [text, TypeName.text], hfirst, ?_⟩
  intro c hc
  cases rest with
  | cons d rest =>
      obtain rfl : d = '.' := hrest d rfl
      obtain rfl : '.' = c := by simpa using hc
      decide
  | nil =>
      cases arguments with
      | some arguments =>
          obtain rfl : '<' = c := by simpa [TypeName.text] using hc
          decide
      | none =>
          have hsquare : c ∈ squares dimensions :=
            List.mem_of_mem_head? (by simpa [TypeName.text] using hc)
          rcases mem_squares hsquare with rfl | rfl <;> decide

end MemberType.Qualified

end Diagrams.Code.Written
