/-
Lists of names as a script may write them.

A name in a list may have a schema in front of it, marks around itself and around the schema, a
length and an order behind it and blanks on both sides, and between two commas there may be no name
at all.  The reader cuts the list at its commas, trims each item, puts away what stands behind a
bracket, keeps the first word, and then puts away marks, schema and marks again.  `listedName_text`
follows one name through these steps and `identifierList_listText` a whole list, so keys pair the
names of two lists one by one.
-/
import Diagrams.Proofs.Schema.Names

namespace Diagrams.Schema.Listed

open Written

/-! ### How names are listed -/

/-- A text of blanks. -/
abbrev Blanks := { blanks : Text // blanks.all isBlank = true }

theorem Blanks.isBlank (blanks : Blanks) : ∀ c ∈ blanks.val, isBlank c = true :=
  List.all_eq_true.mp blanks.property

/-- What a name can be wrapped in. -/
inductive Wrapper
  | backticks
  | doubleQuotes
  | apostrophes
  | brackets
  deriving DecidableEq, Repr

namespace Wrapper

/-- What stands in front of the name. -/
def opening : Wrapper → Char
  | backticks => '\x60'
  | doubleQuotes => '"'
  | apostrophes => '\x27'
  | brackets => '['

/-- What stands after the name. -/
def closing : Wrapper → Char
  | backticks => '\x60'
  | doubleQuotes => '"'
  | apostrophes => '\x27'
  | brackets => ']'

end Wrapper

/-- A name, of a schema or of what is listed, and what it is wrapped in. -/
structure Part where
  /-- The name itself. -/
  name : Text
  /-- What it is wrapped in. -/
  wrapper : Option Wrapper := none
  isName : isIdentifier name = true := by decide

namespace Part

variable (part : Part)

/-- What stands in front of the name. -/
def opening : Text := (part.wrapper.map Wrapper.opening).toList

/-- What stands after the name. -/
def closing : Text := (part.wrapper.map Wrapper.closing).toList

/-- The name as it is written. -/
def text : Text := part.opening ++ (part.name ++ part.closing)

end Part

/-- Which way a listed column is ordered. -/
inductive Order
  | ascending
  | descending
  deriving DecidableEq, Repr

/-- The word for an order. -/
def Order.word : Order → String
  | ascending => "ASC"
  | descending => "DESC"

theorem Order.isLetters_word (order : Order) : isLetters order.word = true := by
  cases order <;> decide

/-- A name in a list, with what belongs to it. -/
structure ListedName where
  /-- The blanks in front. -/
  before : Blanks := ⟨[], rfl⟩
  /-- The schema. -/
  schema : Option Part := none
  /-- The name. -/
  part : Part
  /-- The digits of the length. -/
  length : Option { digits : Text // digits ≠ [] ∧ digits.all isDecimalDigit = true } := none
  /-- The order. -/
  order : Option Order := none
  /-- The blanks after all of it. -/
  after : Blanks := ⟨[], rfl⟩

namespace ListedName

variable (listed : ListedName)

/-- The name that is listed. -/
def name : Text := listed.part.name

/-- The schema with the point behind it. -/
def schemaText : Text :=
  match listed.schema with
  | some schema => schema.text ++ ['.']
  | none => []

/-- The name with its schema. -/
def qualified : Text := listed.schemaText ++ listed.part.text

/-- The length in its brackets. -/
def lengthText : Text :=
  match listed.length with
  | some length => bracketed length
  | none => []

/-- The order with a space in front of it. -/
def orderText : Text :=
  match listed.order with
  | some order => ' ' :: order.word.toList
  | none => []

/-- What stands behind the name. -/
def behind : Text := listed.lengthText ++ listed.orderText

/-- The listed name as it is written. -/
def text : Text := listed.before ++ ((listed.qualified ++ listed.behind) ++ listed.after)

end ListedName

/-- What can stand between two commas. -/
inductive Item
  | blank (blanks : Blanks)
  | name (listed : ListedName)

namespace Item

/-- The item as it is written. -/
def text : Item → Text
  | blank blanks => blanks
  | name listed => listed.text

/-- The name that is listed, if there is one. -/
def name? : Item → Option Text
  | blank _ => none
  | name listed => some listed.name

end Item

/-- The items with commas between them. -/
def listText (items : List Item) : Text := Text.joined [','] (items.map Item.text)

/-- Names with commas between them, and none left out. -/
def namesText (names : List ListedName) : Text := listText (names.map .name)

/-! ### Names and their marks -/

theorem isBlank_of_isNameQuote {c : Char} (h : isNameQuote c = true) : isBlank c = false := by
  simp only [isNameQuote, Bool.or_eq_true, beq_iff_eq] at h
  rcases h with (((rfl | rfl) | rfl) | rfl) | rfl <;> decide

namespace Part

variable (part : Part)

theorem isWordChar_name : ∀ c ∈ part.name, isWordChar c = true :=
  isWordChar_of_isIdentifier part.isName

theorem isNameQuote_name : ∀ c ∈ part.name, isNameQuote c = false :=
  fun c hc => isNameQuote_of_isWordChar (part.isWordChar_name c hc)

theorem isNameQuote_opening : ∀ c ∈ part.opening, isNameQuote c = true := by
  obtain ⟨name, _ | wrapper, -⟩ := part
  · exact List.forall_mem_nil _
  · cases wrapper <;> exact List.forall_mem_singleton.mpr (by decide)

theorem isNameQuote_closing : ∀ c ∈ part.closing, isNameQuote c = true := by
  obtain ⟨name, _ | wrapper, -⟩ := part
  · exact List.forall_mem_nil _
  · cases wrapper <;> exact List.forall_mem_singleton.mpr (by decide)

/-- A name and its marks are made of letters and marks. -/
theorem isWordChar_or_isNameQuote : ∀ c ∈ part.text, (isWordChar c || isNameQuote c) = true := by
  refine List.forall_mem_append.mpr
    ⟨fun c hc => ?_, List.forall_mem_append.mpr ⟨fun c hc => ?_, fun c hc => ?_⟩⟩
  · rw [part.isNameQuote_opening c hc, Bool.or_true]
  · rw [part.isWordChar_name c hc, Bool.true_or]
  · rw [part.isNameQuote_closing c hc, Bool.or_true]

theorem ne_nil : part.text ≠ [] := by
  simp [text, ne_nil_of_isIdentifier part.isName]

end Part

namespace ListedName

variable (listed : ListedName)

/-- The characters of a name with its schema. -/
def isQualified (c : Char) : Bool := isWordChar c || isNameQuote c || c == '.'

theorem isBlank_of_isQualified {c : Char} (h : isQualified c = true) : isBlank c = false := by
  simp only [isQualified, Bool.or_eq_true, beq_iff_eq] at h
  rcases h with (hword | hquote) | rfl
  · exact isBlank_of_isWordChar hword
  · exact isBlank_of_isNameQuote hquote
  · decide

theorem isQualified_qualified : ∀ c ∈ listed.qualified, isQualified c = true := by
  have hpart : ∀ part : Part, ∀ c ∈ part.text, isQualified c = true := fun part c hc => by
    rw [isQualified, part.isWordChar_or_isNameQuote c hc, Bool.true_or]
  refine List.forall_mem_append.mpr ⟨?_, hpart listed.part⟩
  unfold schemaText
  split
  · exact List.forall_mem_append.mpr ⟨hpart _, List.forall_mem_singleton.mpr (by decide)⟩
  · exact List.forall_mem_nil _

theorem qualified_ne_nil : listed.qualified ≠ [] := by
  simp [qualified, listed.part.ne_nil]

/-- Marks, schema and marks again are put away, and the name is left. -/
theorem unquote_qualified : unquote listed.qualified = listed.name := by
  have hblank : ∀ c ∈ listed.qualified, isBlank c = false :=
    fun c hc => isBlank_of_isQualified (listed.isQualified_qualified c hc)
  have htrim : listed.qualified.trim = listed.qualified :=
    Text.strip_eq_self (fun c hc => hblank c (List.mem_of_mem_head? hc))
      fun c hc => hblank c (List.mem_of_mem_getLast? hc)
  cases hschema : listed.schema with
  | none =>
      have hqualified : listed.qualified = listed.part.text := by
        simp [qualified, schemaText, hschema]
      have hstrip : Text.strip isNameQuote listed.part.text = listed.part.name :=
        strip_quoted listed.part.isNameQuote_opening listed.part.isNameQuote_closing
          listed.part.isWordChar_name
      have hpoint : listed.part.name.afterLast? '.' = none :=
        Text.afterLast?_of_not_mem (not_mem_of_forall listed.part.isWordChar_name (by decide))
      simp only [unquote, htrim]
      rw [hqualified, hstrip, hpoint]
      rfl
  | some schema =>
      -- The marks inside, around the point, stay for the second round.
      have hqualified : listed.qualified = schema.opening ++
          ((schema.name ++ (schema.closing ++ '.' :: (listed.part.opening ++ listed.part.name)))
            ++ listed.part.closing) := by
        simp [qualified, schemaText, hschema, Part.text]
      have hstrip : Text.strip isNameQuote listed.qualified
          = schema.name ++ (schema.closing ++
            '.' :: (listed.part.opening ++ listed.part.name)) := by
        rw [hqualified]
        refine Text.strip_between schema.isNameQuote_opening listed.part.isNameQuote_closing ?_ ?_
        · exact forall_head?_append (ne_nil_of_isIdentifier schema.isName) schema.isNameQuote_name _
        · rw [← List.cons_append, ← List.append_assoc, ← List.append_assoc]
          exact forall_getLast?_append_of_forall (ne_nil_of_isIdentifier listed.part.isName)
            listed.part.isNameQuote_name _
      have hpoint : '.' ∉ listed.part.opening ++ listed.part.name := by
        rw [List.mem_append, not_or]
        exact ⟨not_mem_of_forall listed.part.isNameQuote_opening (by decide),
          not_mem_of_forall listed.part.isWordChar_name (by decide)⟩
      have hlast : Text.strip isNameQuote (listed.part.opening ++ listed.part.name)
          = listed.part.name := by
        simpa using strip_quoted listed.part.isNameQuote_opening (List.forall_mem_nil _)
          listed.part.isWordChar_name
      simp only [unquote, htrim]
      rw [hstrip, ← List.append_assoc, Text.afterLast?_append_cons hpoint]
      exact hlast

/-! ### One item -/

theorem isWordChar_or_space : ∀ c ∈ listed.orderText, (isWordChar c || c == ' ') = true := by
  unfold orderText
  split
  · rename_i order _
    refine List.forall_mem_cons.mpr ⟨by decide, fun c hc => ?_⟩
    rw [isWordChar_of_isLetters order.isLetters_word c hc, Bool.true_or]
  · exact List.forall_mem_nil _

theorem not_mem_orderText {c : Char} (h : (isWordChar c || c == ' ') = false) :
    c ∉ listed.orderText :=
  not_mem_of_forall listed.isWordChar_or_space h

theorem isBlank_head?_orderText : ∀ c ∈ listed.orderText.head?, isBlank c = true := by
  unfold orderText
  split
  · rintro _ ⟨⟩
    decide
  · simp

theorem not_mem_lengthText {c : Char} (hdigit : isDecimalDigit c = false) (hopening : c ≠ '(')
    (hclosing : c ≠ ')') : c ∉ listed.lengthText := by
  unfold lengthText
  split
  · rename_i length heq
    have hdigits : c ∉ length.val :=
      not_mem_of_forall (List.all_eq_true.mp length.property.2) hdigit
    simp [bracketed, hdigits, hopening, hclosing]
  · exact List.not_mem_nil

/-- A name goes on up to the end of what belongs to it. -/
theorem solid : Solid (listed.qualified ++ listed.behind) := by
  have hname : Solid listed.qualified := .of_forall listed.qualified_ne_nil
    fun c hc => isBlank_of_isQualified (listed.isQualified_qualified c hc)
  have hlength : Solid (listed.qualified ++ listed.lengthText) := by
    unfold lengthText
    split
    · rename_i length _
      have hbracket : Solid [')'] :=
        .of_forall (List.cons_ne_nil _ _) (List.forall_mem_singleton.mpr (by decide))
      simpa [bracketed] using hname.append ('(' :: length.val) hbracket
    · simpa using hname
  rw [behind, ← List.append_assoc]
  unfold orderText
  split
  · rename_i order _
    exact hlength.append [' '] (solid_letters order.isLetters_word)
  · simpa using hlength

/-- Putting away the bracket leaves no more than the order behind the name. -/
theorem exists_withoutArguments : ∃ left, withoutArguments (listed.qualified ++ listed.behind)
    = listed.qualified ++ left ∧ ∀ c ∈ left.head?, isBlank c = true := by
  have hqualified : '(' ∉ listed.qualified :=
    not_mem_of_forall listed.isQualified_qualified (by decide)
  have horder : '\n' ∉ listed.orderText := listed.not_mem_orderText (by decide)
  cases hlength : listed.length with
  | none =>
      have hbehind : listed.behind = listed.orderText := by simp [behind, lengthText, hlength]
      have hfeed : '\n' ∉ listed.qualified :=
        not_mem_of_forall listed.isQualified_qualified (by decide)
      have hbracket : '(' ∉ listed.orderText := listed.not_mem_orderText (by decide)
      refine ⟨listed.orderText, ?_, listed.isBlank_head?_orderText⟩
      rw [hbehind]
      refine withoutArguments_of_forall
        (List.forall_mem_append.mpr ⟨fun c hc => ?_, fun c hc => ?_⟩)
      · exact ⟨fun heq => hfeed (heq ▸ hc), fun heq => hqualified (heq ▸ hc)⟩
      · exact ⟨fun heq => horder (heq ▸ hc), fun heq => hbracket (heq ▸ hc)⟩
  | some length =>
      have hbehind : listed.behind = '(' :: (length.val ++ ')' :: listed.orderText) := by
        simp [behind, lengthText, hlength, bracketed]
      have hdigits : '\n' ∉ length.val :=
        not_mem_of_forall (List.all_eq_true.mp length.property.2) (by decide)
      have hfeed : '\n' ∉ length.val ++ ')' :: listed.orderText := by simp [hdigits, horder]
      refine ⟨[], ?_, by simp⟩
      rw [hbehind, withoutArguments_opening hqualified hfeed, List.append_nil]

/-- A listed name is read as the name itself. -/
theorem listedName_text : listedName listed.text = listed.name := by
  obtain ⟨left, hbare, hleft⟩ := listed.exists_withoutArguments
  have hword : ∀ c ∈ listed.qualified, isBlank c = false :=
    fun c hc => isBlank_of_isQualified (listed.isQualified_qualified c hc)
  rw [text, listedName_of_behind listed.before.isBlank listed.after.isBlank listed.solid
    listed.qualified_ne_nil hword hbare hleft, listed.unquote_qualified]

theorem comma_not_mem_text : ',' ∉ listed.text := by
  have hqualified : ',' ∉ listed.qualified :=
    not_mem_of_forall listed.isQualified_qualified (by decide)
  have hlength : ',' ∉ listed.lengthText :=
    listed.not_mem_lengthText (by decide) (by decide) (by decide)
  have horder : ',' ∉ listed.orderText := listed.not_mem_orderText (by decide)
  have hbefore : ',' ∉ listed.before.val := not_mem_of_forall listed.before.isBlank (by decide)
  have hafter : ',' ∉ listed.after.val := not_mem_of_forall listed.after.isBlank (by decide)
  simp [text, behind, hqualified, hlength, horder, hbefore, hafter]

end ListedName

/-! ### Whole lists -/

namespace Item

theorem comma_not_mem_text (item : Item) : ',' ∉ item.text := by
  cases item with
  | blank blanks => exact not_mem_of_forall blanks.isBlank (by decide)
  | name listed => exact listed.comma_not_mem_text

/-- Of an item its name is read, and nothing where there is none. -/
theorem listedName_text (item : Item) : listedName item.text = item.name?.getD [] := by
  cases item with
  | blank blanks =>
      have htrim : (blanks : Text).trim = [] := Text.strip_eq_nil_iff.mpr blanks.isBlank
      show listedName (blanks : Text) = []
      rw [listedName, htrim]
      decide
  | name listed => exact listed.listedName_text

theorem ne_nil_of_mem_name? (item : Item) : ∀ name ∈ item.name?, name ≠ [] := by
  cases item with
  | blank blanks => exact fun name hname => absurd hname (Option.not_mem_none name)
  | name listed =>
      rintro _ ⟨⟩
      exact ne_nil_of_isIdentifier listed.part.isName

end Item

/-- Where no name was read, none is kept. -/
theorem filter_listedNames (items : List Item) :
    (items.map fun item => item.name?.getD []).filter (fun name => !name.isEmpty)
      = items.filterMap Item.name? := by
  induction items with
  | nil => rfl
  | cons item items ih =>
      cases hname : item.name? with
      | none => simp [hname, ih]
      | some name => simp [hname, ih, item.ne_nil_of_mem_name? name hname]

/-- A list is read as the names in it, in their order. -/
theorem identifierList_listText (items : List Item) :
    identifierList (listText items) = items.filterMap Item.name? := by
  rw [listText, identifierList_joined (fun item _ => item.comma_not_mem_text) fun item _ =>
    item.listedName_text, filter_listedNames]

theorem identifierList_namesText (names : List ListedName) :
    identifierList (namesText names) = names.map ListedName.name := by
  have hname : Item.name? ∘ Item.name = some ∘ ListedName.name := rfl
  rw [namesText, identifierList_listText, List.filterMap_map, hname, List.filterMap_eq_map]

/-- **Listed names are read one by one.**  A list is read as the names in it, in their order,
whatever stands around the names and between the commas; and of two lists without blank items each
column of the first makes one key, for the name at the same place of the second, if there is one. -/
theorem identifierList_foreignKeys_listed :
    (∀ items : List Item, identifierList (listText items) = items.filterMap Item.name?) ∧
      ∀ (table target : Text) (columns : List ListedName) (references : Option (List ListedName)),
        (foreignKeys table (namesText columns) target (references.map namesText)).length
            = columns.length ∧
          ∀ place : Nat,
            (foreignKeys table (namesText columns) target (references.map namesText))[place]?
              = columns[place]?.map fun column =>
                { sourceTable := table, column := column.name, targetTable := unquote target
                  targetColumn := (references.getD [])[place]?.map ListedName.name } := by
  refine ⟨identifierList_listText, fun table target columns references => ?_⟩
  have hreferences : identifierList ((references.map namesText).getD [])
      = (references.getD []).map ListedName.name := by
    cases references with
    | none => rfl
    | some names => exact identifierList_namesText names
  have hkeys : foreignKeys table (namesText columns) target (references.map namesText)
      = columns.zipIdx.map fun (column, place) =>
          { sourceTable := table, column := column.name, targetTable := unquote target
            targetColumn := (references.getD [])[place]?.map ListedName.name } := by
    unfold foreignKeys
    simp only [hreferences, identifierList_namesText, List.zipIdx_map, List.map_map,
      List.getElem?_map]
    rfl
  rw [hkeys]
  refine ⟨by simp, fun place => ?_⟩
  rw [List.getElem?_map, List.getElem?_zipIdx]
  cases columns[place]? <;> simp

/-- A name in brackets, and one with marks, a schema, a length, an order and blanks around it. -/
def wrapped : List ListedName :=
  [{ before := ⟨['\n'], by decide⟩
     part := { name := "a".toList, wrapper := some .brackets }
     after := ⟨[' '], by decide⟩ },
    { before := ⟨[' '], by decide⟩
      schema := some { name := "s".toList, wrapper := some .doubleQuotes }
      part := { name := "b".toList, wrapper := some .apostrophes }
      length := some ⟨"10".toList, by decide⟩
      order := some .descending
      after := ⟨['\t'], by decide⟩ }]

/-- These names, and two items behind each of them that name nothing. -/
def spacedOut : List Item :=
  wrapped.flatMap fun listed => [.name listed, .blank ⟨[], rfl⟩, .blank ⟨[' '], by decide⟩]

/-- The wrapped names are read out of a list with gaps, and of the two keys that they make the
second one has no column to refer to. -/
theorem identifierList_foreignKeys_wrapped :
    listText spacedOut = "\n[a] ,, , \"s\".'b'(10) DESC\t,, ".toList ∧
      identifierList (listText spacedOut) = ["a".toList, "b".toList] ∧
      (foreignKeys "t".toList (namesText wrapped) "[u]".toList
          ((some [{ part := { name := "id".toList } }]).map namesText))[1]?
        = some { sourceTable := "t".toList, column := "b".toList, targetTable := "u".toList
                 targetColumn := none } := by
  obtain ⟨hread, hpaired⟩ := identifierList_foreignKeys_listed
  refine ⟨by decide, (hread spacedOut).trans (by decide), ?_⟩
  refine ((hpaired "t".toList "[u]".toList wrapped _).2 1).trans ?_
  decide

end Diagrams.Schema.Listed
