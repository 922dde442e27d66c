/-
A primary key that lists its columns with lengths and orders.

The list of a key is matched up to the first bracket that closes one.  Where a column of the list
has a length, that is the bracket behind the length, so the columns up to that one are all that is
read of the list (`counted`).  They are read as the columns they are, whatever quotes, lengths and
orders they are written with, and marked in their table (`forall₂_isKeyed_counted`).  So the key of
a table is the listed columns if no column but the last has a length (`tables_read_keyTable`), and
else it is cut short (`tables_read_cutKey`).
-/
import Diagrams.Proofs.Schema.Effect
import Diagrams.Proofs.Schema.KeyedTable

namespace Diagrams.Schema.Written

open Pattern

/-! ### Listed columns -/

/-- A column in the list of a key. -/
structure ListedColumn where
  /-- The name of the column. -/
  name : Name
  /-- The blanks in front of the name. -/
  front : Text := []
  /-- The blanks in front of the length. -/
  gap : Text := []
  /-- How much of the column counts. -/
  length : Option Text := none
  /-- The word that says which way the column is ordered. -/
  order : Option Text := none

namespace ListedColumn

variable (listed : ListedColumn)

/-- The listed column up to the end of its length, without the bracket behind it. -/
def start : Text :=
  listed.front ++ (listed.name.text ++ match listed.length with
    | some length => listed.gap ++ '(' :: length
    | none => [])

/-- The order, with a space in front of it. -/
def orderText : Text :=
  match listed.order with
  | some order => ' ' :: order
  | none => []

/-- What stands behind the length. -/
def rest : Text := (if listed.length.isSome then [')'] else []) ++ listed.orderText

/-- The listed column as it is written. -/
def text : Text := listed.start ++ listed.rest

/-- The part of a listed column that is read if the list is matched up to its length. -/
def read : Text := if listed.length.isSome then listed.start else listed.text

/-- What a listed column can be made of. -/
structure WellFormed : Prop where
  name : isIdentifier listed.name.name = true
  front : ∀ c ∈ listed.front, isBlank c = true
  gap : ∀ c ∈ listed.gap, isBlank c = true
  length : ∀ length ∈ listed.length, length ≠ [] ∧ length.all isDecimalDigit = true
  order : ∀ order ∈ listed.order, order ≠ [] ∧ ∀ c ∈ order, isWordChar c = true

end ListedColumn

/-- The columns of a list that count: those up to the first one with a length. -/
def counted : List ListedColumn → List ListedColumn
  | [] => []
  | listed :: others => if listed.length.isSome then [listed] else listed :: counted others

/-- If no column but the last has a length, all of them count. -/
theorem counted_eq_self {columns : List ListedColumn}
    (h : ∀ listed ∈ columns.dropLast, listed.length = none) : counted columns = columns := by
  induction columns with
  | nil => rfl
  | cons listed others ih =>
      cases others with
      | nil => simp [counted]
      | cons next others =>
          rw [List.dropLast_cons_cons] at h
          obtain ⟨hlisted, hothers⟩ := List.forall_mem_cons.mp h
          rw [counted, if_neg (by simp [hlisted]), ih hothers]

theorem mem_of_mem_counted {columns : List ListedColumn} {listed : ListedColumn}
    (h : listed ∈ counted columns) : listed ∈ columns := by
  induction columns with
  | nil => exact h
  | cons first others ih =>
      rw [counted] at h
      split at h
      · exact List.mem_cons.mpr (.inl (List.mem_singleton.mp h))
      · rcases List.mem_cons.mp h with rfl | hothers
        · exact List.mem_cons_self
        · exact List.mem_cons_of_mem _ (ih hothers)

theorem counted_ne_nil {columns : List ListedColumn} (h : columns ≠ []) : counted columns ≠ [] := by
  obtain ⟨listed, others, rfl⟩ := List.exists_cons_of_ne_nil h
  rw [counted]
  split <;> exact List.cons_ne_nil _ _

/-- The columns of a list with commas between them. -/
def listedText (columns : List ListedColumn) : Text :=
  Text.joined [','] (columns.map ListedColumn.text)

/-- What is read of a list. -/
def countedText (columns : List ListedColumn) : Text :=
  Text.joined [','] ((counted columns).map ListedColumn.read)

/-- What is read of a list is the list up to the first bracket that closes one. -/
theorem exists_bracketed_counted {columns : List ListedColumn} (h : columns ≠ []) :
    ∃ rest, bracketed (listedText columns) = bracketed (countedText columns) ++ rest := by
  have hsplit : ∃ rest, listedText columns ++ [')'] = countedText columns ++ ')' :: rest := by
    induction columns with
    | nil => exact absurd rfl h
    | cons listed others ih =>
        cases hlength : listed.length.isSome with
        | true =>
            have hread : countedText (listed :: others) = listed.start := by
              simp [countedText, counted, hlength, ListedColumn.read]
            have htext : ∃ rest, listed.text = listed.start ++ ')' :: rest :=
              ⟨_, by rw [ListedColumn.text, ListedColumn.rest, if_pos hlength]; rfl⟩
            obtain ⟨order, htext⟩ := htext
            rw [hread]
            cases others with
            | nil => exact ⟨order ++ [')'], by simp [listedText, htext]⟩
            | cons next others =>
                exact ⟨order ++ (',' :: (listedText (next :: others) ++ [')'])),
                  by simp [listedText, Text.joined_cons_cons, htext]⟩
        | false =>
            have hcounted : counted (listed :: others) = listed :: counted others := by
              rw [counted, if_neg (by simp [hlength])]
            have hread : listed.read = listed.text := by
              rw [ListedColumn.read, if_neg (by simp [hlength])]
            cases others with
            | nil => exact ⟨[], by simp [listedText, countedText, counted, hlength, hread]⟩
            | cons next others =>
                obtain ⟨rest, hrest⟩ := ih (List.cons_ne_nil _ _)
                refine ⟨rest, ?_⟩
                obtain ⟨first, more, hmore⟩ :=
                  List.exists_cons_of_ne_nil (counted_ne_nil (List.cons_ne_nil next others))
                unfold listedText countedText at hrest ⊢
                rw [hmore, List.map_cons, List.map_cons] at hrest
                rw [hcounted, hmore, List.map_cons, List.map_cons, List.map_cons, List.map_cons,
                  Text.joined_cons_cons, Text.joined_cons_cons, hread, List.append_assoc,
                  List.append_assoc, hrest, List.append_assoc, List.append_assoc]
  obtain ⟨rest, hrest⟩ := hsplit
  exact ⟨rest, by rw [bracketed, bracketed, List.cons_append, List.append_assoc, hrest]; rfl⟩

/-! ### What is read of a list -/

namespace ListedColumn

variable {listed : ListedColumn}

/-- The characters of what is read of a listed column. -/
def isListed (c : Char) : Bool := isNameChar c || isBlank c || c == '('

theorem isListed_start (h : listed.WellFormed) : ∀ c ∈ listed.start, isListed c = true := by
  have hname : ∀ c ∈ listed.name.text, isListed c = true := fun c hc => by
    simp [isListed, Name.isNameChar h.name c hc]
  have hblank : ∀ {blanks : Text}, (∀ c ∈ blanks, isBlank c = true) → ∀ c ∈ blanks,
      isListed c = true :=
    fun hblanks c hc => by simp [isListed, hblanks c hc]
  refine List.forall_mem_append.mpr ⟨hblank h.front, List.forall_mem_append.mpr ⟨hname, ?_⟩⟩
  cases hlength : listed.length with
  | none => exact List.forall_mem_nil _
  | some length =>
      have hdigits := isWordChar_of_length (h.length length hlength).2
      refine List.forall_mem_append.mpr ⟨hblank h.gap, List.forall_mem_cons.mpr ⟨by decide, ?_⟩⟩
      exact fun c hc => by simp [isListed, isNameChar, hdigits c hc]

theorem isListed_read (h : listed.WellFormed) : ∀ c ∈ listed.read, isListed c = true := by
  have hstart := isListed_start h
  cases hlength : listed.length with
  | some length => simpa [read, hlength] using hstart
  | none =>
      have hread : listed.read = listed.start ++ listed.rest := by simp [read, text, hlength]
      rw [hread]
      refine List.forall_mem_append.mpr ⟨hstart, ?_⟩
      cases horder : listed.order with
      | none => simp [ListedColumn.rest, orderText, hlength, horder]
      | some order =>
          have hword := (h.order order horder).2
          have hrest : listed.rest = ' ' :: order := by
            simp [ListedColumn.rest, orderText, hlength, horder]
          rw [hrest]
          exact List.forall_mem_cons.mpr
            ⟨by decide, fun c hc => by simp [isListed, isNameChar, hword c hc]⟩

/-- A name is read whatever stands behind it, if blanks are all of that which is left. -/
theorem listedName_of_behind (h : listed.WellFormed) {behind left : Text}
    (hsolid : Solid (listed.name.text ++ behind))
    (hbare : withoutArguments (listed.name.text ++ behind) = listed.name.text ++ left)
    (hleft : ∀ c ∈ left.head?, isBlank c = true) :
    listedName (listed.front ++ (listed.name.text ++ behind)) = listed.name.name := by
  have hread := Written.listedName_of_behind h.front (List.forall_mem_nil _) hsolid
    (Name.solid h.name).ne_nil (fun c hc =>
      isBlank_of_isNameChar (Name.isNameChar h.name c hc)) hbare hleft
  rw [List.append_nil] at hread
  rw [hread, unquote_text h.name]

theorem not_mem_name (h : listed.WellFormed) {c : Char} (hc : isNameChar c = false) :
    c ∉ listed.name.text :=
  not_mem_of_forall (Name.isNameChar h.name) hc

/-- A listed column is read as the column that it names. -/
theorem listedName_read (h : listed.WellFormed) : listedName listed.read = listed.name.name := by
  have hname := Name.solid h.name
  cases hlength : listed.length with
  | some length =>
      obtain ⟨hne, hdigits⟩ := h.length length hlength
      have hread : listed.read = listed.front ++
          (listed.name.text ++ (listed.gap ++ '(' :: length)) := by
        simp [read, start, hlength]
      have hlast : Solid length := solid_word hne (isWordChar_of_length hdigits)
      have hsolid : Solid (listed.name.text ++ (listed.gap ++ '(' :: length)) := by
        simpa using hname.append (listed.gap ++ ['(']) hlast
      have hbare : withoutArguments (listed.name.text ++ (listed.gap ++ '(' :: length))
          = listed.name.text ++ listed.gap := by
        rw [← List.append_assoc]
        refine withoutArguments_opening ?_ ?_
        · rw [List.mem_append, not_or]
          exact ⟨not_mem_name h (by decide), not_mem_of_forall h.gap (by decide)⟩
        · exact not_mem_of_forall (List.all_eq_true.mp hdigits) (by decide)
      rw [hread]
      exact listedName_of_behind h hsolid hbare fun c hc => h.gap c (List.mem_of_mem_head? hc)
  | none =>
      have hplain : ∀ behind : Text, '\n' ∉ behind → '(' ∉ behind →
          withoutArguments (listed.name.text ++ behind) = listed.name.text ++ behind := by
        intro behind hline hopening
        refine withoutArguments_of_forall fun c hc => ?_
        constructor
        · rintro rfl
          rcases List.mem_append.mp hc with hc | hc
          · exact not_mem_name h (by decide) hc
          · exact hline hc
        · rintro rfl
          rcases List.mem_append.mp hc with hc | hc
          · exact not_mem_name h (by decide) hc
          · exact hopening hc
      cases horder : listed.order with
      | none =>
          have hread : listed.read = listed.front ++ (listed.name.text ++ []) := by
            simp [read, text, start, ListedColumn.rest, orderText, hlength, horder]
          rw [hread]
          refine listedName_of_behind h ?_ (hplain [] List.not_mem_nil List.not_mem_nil) (by simp)
          rwa [List.append_nil]
      | some order =>
          obtain ⟨hne, hword⟩ := h.order order horder
          have hread : listed.read = listed.front ++ (listed.name.text ++ ' ' :: order) := by
            simp [read, text, start, ListedColumn.rest, orderText, hlength, horder]
          rw [hread]
          refine listedName_of_behind h (hname.append [' '] (solid_word hne hword))
            (hplain _ ?_ ?_) ?_
          · exact List.not_mem_cons_of_ne_of_not_mem (by decide)
              (not_mem_of_forall hword (by decide))
          · exact List.not_mem_cons_of_ne_of_not_mem (by decide)
              (not_mem_of_forall hword (by decide))
          · rintro _ ⟨⟩
            decide

end ListedColumn

/-- What is read of a list are the columns that count. -/
theorem identifierList_countedText {columns : List ListedColumn}
    (h : ∀ listed ∈ columns, listed.WellFormed) :
    identifierList (countedText columns) = (counted columns).map fun listed =>
      listed.name.name := by
  have hcounted : ∀ listed ∈ counted columns, listed.WellFormed :=
    fun listed hlisted => h listed (mem_of_mem_counted hlisted)
  have hcommas : ∀ listed ∈ counted columns, ',' ∉ listed.read := fun listed hlisted =>
    not_mem_of_forall (ListedColumn.isListed_read (hcounted listed hlisted)) (by decide)
  rw [countedText, identifierList_joined hcommas fun listed hlisted =>
    ListedColumn.listedName_read (hcounted listed hlisted), List.filter_eq_self]
  intro name hname
  obtain ⟨listed, hlisted, rfl⟩ := List.mem_map.mp hname
  simpa using ne_nil_of_isIdentifier (hcounted listed hlisted).name

theorem ne_bracket_of_countedText {columns : List ListedColumn}
    (h : ∀ listed ∈ columns, listed.WellFormed) : ∀ c ∈ countedText columns, c ≠ ')' := by
  refine Text.forall_mem_joined (List.forall_mem_singleton.mpr (by decide))
    fun piece hpiece c hc => ?_
  obtain ⟨listed, hlisted, rfl⟩ := List.mem_map.mp hpiece
  rintro rfl
  have hchar := ListedColumn.isListed_read (h listed (mem_of_mem_counted hlisted)) _ hc
  exact absurd hchar (by decide)

/-- Blanks are as good as a space for a scan. -/
theorem uncut_blanks {isQuote : Char → Bool} (hblank : ∀ c, isBlank c = true → isQuote c = false)
    {blanks : Text} (h : ∀ c ∈ blanks, isBlank c = true) : Uncut isQuote blanks := by
  refine .of_forall fun c hc => ⟨hblank c (h c hc), ?_, ?_, ?_, ?_⟩
  · rintro rfl
    exact absurd (h _ hc) (by decide)
  · rintro rfl
    exact absurd (h _ hc) (by decide)
  · rintro rfl
    exact absurd (h _ hc) (by decide)
  · rw [beq_eq_false_iff_ne]
    rintro rfl
    exact absurd (h _ hc) (by decide)

theorem isQuote_of_isBlank {c : Char} (h : isBlank c = true) :
    ListScan.isQuote c = false ∧ Brackets.isQuote c = false := by
  have hne : c ≠ '\x27' ∧ c ≠ '"' ∧ c ≠ '\x60' := by
    refine ⟨?_, ?_, ?_⟩ <;> rintro rfl <;> exact absurd h (by decide)
  simp [ListScan.isQuote, Brackets.isQuote, hne]

theorem ListedColumn.uncut {isQuote : Char → Bool} (hquotes : QuotesApart isQuote)
    (hblank : ∀ c, isBlank c = true → isQuote c = false) {listed : ListedColumn}
    (h : listed.WellFormed) : Uncut isQuote listed.text := by
  have hfront : Uncut isQuote (listed.front ++ listed.name.text) :=
    (uncut_blanks hblank h.front).append (Name.uncut hquotes h.name)
  have horder : Uncut isQuote listed.orderText := by
    unfold orderText
    cases horder : listed.order with
    | none => exact .nil
    | some order => exact (uncut_space hquotes).append (uncut_word hquotes (h.order order horder).2)
  cases hsome : listed.length with
  | none =>
      have htext : listed.text = (listed.front ++ listed.name.text) ++ listed.orderText := by
        simp [text, start, rest, hsome]
      rw [htext]
      exact hfront.append horder
  | some length =>
      have htext : listed.text = (listed.front ++ listed.name.text) ++
          (listed.gap ++ (bracketed length ++ listed.orderText)) := by
        simp [text, start, rest, hsome, bracketed]
      have hdigits := isWordChar_of_length (h.length length hsome).2
      have hlength : Uncut isQuote (bracketed length) :=
        uncut_bracketed ((uncut_word hquotes hdigits).mono fun _ _ => rfl)
      rw [htext]
      exact hfront.append ((uncut_blanks hblank h.gap).append (hlength.append horder))

/-! ### Tables with a listed key -/

/-- A part of a table that is no primary key. -/
structure OtherPart where
  /-- The part as it is written. -/
  text : Text
  /-- The columns that it declares. -/
  columns : List Er.Column := []
  /-- The foreign keys that it declares. -/
  foreignKeys : List Er.ForeignKey := []

/-- A part that is read strictly and declares no primary key. -/
structure OtherPart.WellFormed (table : Text) (part : OtherPart) : Prop where
  solid : Solid part.text
  listed : Uncut ListScan.isQuote part.text
  bracketed : Uncut Brackets.isQuote part.text
  reads : ∀ draft : Draft, draft.table = table → readPart draft part.text = .ok { draft with
    columns := draft.columns ++ part.columns
    foreignKeys := draft.foreignKeys ++ part.foreignKeys }

/-- A table with one primary key, which is a part of its own and lists its columns. -/
structure KeyTable where
  /-- Its name. -/
  name : Name
  /-- The parts in front of the key. -/
  front : List OtherPart := []
  /-- The name of the key. -/
  constraint : Option Name := none
  /-- The columns of the key. -/
  listed : List ListedColumn
  /-- The parts behind the key. -/
  back : List OtherPart := []

namespace KeyTable

variable (table : KeyTable)

/-- The key as a part of the table. -/
def keyText : Text :=
  constraintText table.constraint ++
    (spaced ["PRIMARY", "KEY"] ++ bracketed (listedText table.listed))

/-- The parts of the table. -/
def parts : List Text :=
  table.front.map OtherPart.text ++ table.keyText :: table.back.map OtherPart.text

/-- The statement that declares the table, without its semicolon. -/
def body : Text :=
  spaced ["CREATE", "TABLE"] ++
    (table.name.text ++ ' ' :: bracketed (Text.joined partSeparator table.parts))

/-- The statement that declares the table. -/
def script : Text := table.body ++ [';']

/-- The columns of the table, without its keys. -/
def columns : List Er.Column := (table.front ++ table.back).flatMap OtherPart.columns

/-- The foreign keys of the table. -/
def foreignKeys : List Er.ForeignKey := (table.front ++ table.back).flatMap OtherPart.foreignKeys

/-- A table whose key lists some of its columns. -/
structure WellFormed : Prop where
  name : isIdentifier table.name.name = true
  others : ∀ part ∈ table.front ++ table.back, part.WellFormed table.name.name
  constraint : ConstraintWellFormed table.constraint
  nonempty : table.listed ≠ []
  listed : ∀ listed ∈ table.listed, listed.WellFormed
  known : ∀ listed ∈ table.listed, ∃ column ∈ table.columns,
    column.name.lower = listed.name.name.lower
  distinct : (table.columns.map fun column => column.name.lower).Nodup
  semicolon : ';' ∉ table.body
  blockComment : ¬ ['/', '*'] <:+: table.script
  lineComment : ¬ ['-', '-'] <:+: table.script

variable {table}

/-! ### How the list is read -/

/-- The key adds the columns that count. -/
theorem readPart_keyText (h : table.WellFormed) (draft : Draft) :
    readPart draft table.keyText = .ok { draft with
      primaryKeys := draft.primaryKeys ++ (counted table.listed).map fun listed =>
        listed.name.name } := by
  obtain ⟨rest, hrest⟩ := exists_bracketed_counted h.nonempty
  have hnames := identifierList_countedText h.listed
  have hne : countedText table.listed ≠ [] := by
    intro hnil
    rw [hnil] at hnames
    exact counted_ne_nil h.nonempty (List.map_eq_nil_iff.mp hnames.symm)
  obtain ⟨found, hfound, hcolumns⟩ :=
    @matchStart?_primaryKeyPart_bracketed table.constraint _ rest h.constraint hne
      (ne_bracket_of_countedText h.listed)
  rw [← hrest] at hfound
  have hnonempty : table.keyText ≠ [] := by simp [keyText, bracketed]
  have hreading := (readPart_eq_ok_iff draft _ _).mpr ⟨hnonempty, .primaryKey hfound⟩
  rw [hreading, Draft.addPrimaryKey, hcolumns, hnames]

theorem foldlM_readPart_others {table : Text} {others : List OtherPart}
    (h : ∀ part ∈ others, part.WellFormed table) {draft : Draft} (hdraft : draft.table = table) :
    (others.map OtherPart.text).foldlM readPart draft = .ok { draft with
      columns := draft.columns ++ others.flatMap OtherPart.columns
      foreignKeys := draft.foreignKeys ++ others.flatMap OtherPart.foreignKeys } := by
  induction others generalizing draft with
  | nil => simp [pure, Except.pure]
  | cons part others ih =>
      obtain ⟨hpart, hothers⟩ := List.forall_mem_cons.mp h
      rw [List.map_cons, foldlM_readPart_cons]
      refine ⟨_, hpart.reads draft hdraft, ?_⟩
      have hrest := @ih hothers
        { draft with
          columns := draft.columns ++ part.columns
          foreignKeys := draft.foreignKeys ++ part.foreignKeys } hdraft
      rw [hrest]
      simp

theorem uncut_keyText {isQuote : Char → Bool} (hquotes : QuotesApart isQuote)
    (hblank : ∀ c, isBlank c = true → isQuote c = false) (h : table.WellFormed) :
    Uncut isQuote table.keyText := by
  refine (uncut_constraintText hquotes h.constraint).append ?_
  refine (uncut_spaced hquotes (by decide)).append (uncut_bracketed ?_)
  refine nested_joined hquotes (.inl rfl) fun text htext => ?_
  obtain ⟨listed, hlisted, rfl⟩ := List.mem_map.mp htext
  exact ListedColumn.uncut hquotes hblank (h.listed listed hlisted)

theorem solid_keyText (table : KeyTable) : Solid table.keyText := by
  have hword : isLetters "PRIMARY" = true := by decide
  have hkey := (solid_letters hword).append (' ' :: spaced ["KEY"])
    (solid_bracketed (listedText table.listed))
  refine solid_constraintText table.constraint ?_
  simpa only [spaced, List.append_assoc, List.cons_append, List.nil_append] using hkey

theorem partsWritten (h : table.WellFormed) : PartsWritten table.parts := by
  have hparts : ∀ {P : Text → Prop}, P table.keyText →
      (∀ part ∈ table.front ++ table.back, P part.text) → ∀ text ∈ table.parts, P text := by
    intro P hkey hothers text htext
    rcases List.mem_append.mp htext with hfront | hback
    · obtain ⟨part, hpart, rfl⟩ := List.mem_map.mp hfront
      exact hothers part (List.mem_append_left _ hpart)
    · rcases List.mem_cons.mp hback with rfl | hback
      · exact hkey
      · obtain ⟨part, hpart, rfl⟩ := List.mem_map.mp hback
        exact hothers part (List.mem_append_right _ hpart)
  refine ⟨hparts table.solid_keyText fun part hpart => (h.others part hpart).solid, ?_, ?_⟩
  · exact hparts (uncut_keyText quotesApart_listScan (fun _ hc => (isQuote_of_isBlank hc).1) h)
      fun part hpart => (h.others part hpart).listed
  · exact hparts (uncut_keyText quotesApart_brackets (fun _ hc => (isQuote_of_isBlank hc).2) h)
      fun part hpart => (h.others part hpart).bracketed

/-- The table is read strictly. -/
theorem readTable_script (h : table.WellFormed) :
    readTable table.script = .ok (Draft.finish
      { table := table.name.name, columns := table.columns
        primaryKeys := (counted table.listed).map fun listed => listed.name.name
        foreignKeys := table.foreignKeys }) := by
  obtain ⟨hfront, hback⟩ := List.forall_mem_append.mp h.others
  have hread : table.parts.foldlM readPart { table := table.name.name } = .ok
      { table := table.name.name, columns := table.columns
        primaryKeys := (counted table.listed).map fun listed => listed.name.name
        foreignKeys := table.foreignKeys } := by
    rw [parts, List.foldlM_append, foldlM_readPart_others hfront rfl]
    show (table.keyText :: table.back.map OtherPart.text).foldlM readPart _ = _
    rw [foldlM_readPart_cons]
    refine ⟨_, readPart_keyText h _, ?_⟩
    rw [foldlM_readPart_others hback rfl]
    simp [columns, foreignKeys]
  exact readTable_of_parts h.name (partsWritten h) (create_append table.name _ [';']) hread

theorem statements_script (h : table.WellFormed) : statements table.script = [table.script] := by
  have hsolid := solid_create table.name (Text.joined partSeparator table.parts)
  have hsplit := statements_flatMap (fun table : KeyTable => table.body) [table]
    (List.forall_mem_singleton.mpr fun c hc heq => h.semicolon (heq ▸ hc))
    (List.forall_mem_singleton.mpr hsolid.ne_nil) (List.forall_mem_singleton.mpr hsolid.head?)
    (List.forall_mem_singleton.mpr hsolid.getLast?)
  simpa [script] using hsplit

theorem readStatement_script (h : table.WellFormed) (progress : Progress) :
    progress.readStatement table.script = progress.addTable (Draft.finish
      { table := table.name.name, columns := table.columns
        primaryKeys := (counted table.listed).map fun listed => listed.name.name
        foreignKeys := table.foreignKeys }) := by
  have hbody : table.script = _ := create_append table.name _ [';']
  unfold Progress.readStatement
  simp only [stripComments_of_unmarked h.blockComment h.lineComment,
    matchStart?_alterTable_create hbody, Progress.defineTable, readTable_script h]

/-! ### The columns of the key -/

/-- A column that has just been read is not marked yet. -/
theorem isPrimaryKey_of_partReading {draft after : Draft} {text : Text}
    (h : PartReading draft text after)
    (hdraft : ∀ column ∈ draft.columns, column.isPrimaryKey = false) :
    ∀ column ∈ after.columns, column.isPrimaryKey = false := by
  cases h with
  | primaryKey | foreignKey | constraint => exact hdraft
  | column =>
      rw [Draft.columns_addColumn]
      exact List.forall_mem_append.mpr ⟨hdraft, List.forall_mem_singleton.mpr rfl⟩

theorem OtherPart.isPrimaryKey {name : Text} {part : OtherPart} (h : part.WellFormed name) :
    ∀ column ∈ part.columns, column.isPrimaryKey = false := by
  obtain ⟨-, hreading⟩ := (readPart_eq_ok_iff _ _ _).mp (h.reads { table := name } rfl)
  exact isPrimaryKey_of_partReading hreading (List.forall_mem_nil _)

/-- Whether some of the listed columns are the column of a name. -/
def lists (listed : List ListedColumn) (name : Text) : Bool :=
  listed.any fun listed => name.lower = listed.name.name.lower

/-- A column is marked where the list has it, and is as it was declared where the list does not. -/
structure IsKeyed (listed : List ListedColumn) (declared column : Er.Column) : Prop where
  name : column.name = declared.name
  type : column.type = declared.type
  isPrimaryKey : column.isPrimaryKey = lists listed declared.name
  isNullable : column.isNullable = (declared.isNullable && !lists listed declared.name)

theorem isKeyed_marked {listed : List ListedColumn} {keys : List Er.ForeignKey} {column : Er.Column}
    (h : column.isPrimaryKey = false) :
    IsKeyed listed column
      (Er.Entity.marked (listed.map fun listed => listed.name.name) keys column) := by
  have hany : ((listed.map fun listed => listed.name.name).any fun name =>
      column.name.lower = name.lower) = lists listed column.name := List.any_map
  unfold Er.Entity.marked
  rw [hany]
  cases hlists : lists listed column.name <;> cases Er.Entity.lastKey? keys column <;>
    exact ⟨rfl, rfl, by simp [Er.Column.markPrimaryKey, Er.Column.markForeignKey, h, hlists],
      by simp [Er.Column.markPrimaryKey, Er.Column.markForeignKey, h, hlists]⟩

/-- The names of the columns that count. -/
def countedNames (table : KeyTable) : List Text :=
  (counted table.listed).map fun listed => listed.name.name

theorem isPrimaryKey_columns (h : table.WellFormed) :
    ∀ column ∈ table.columns, column.isPrimaryKey = false := by
  intro column hcolumn
  obtain ⟨part, hpart, hcolumn⟩ := List.mem_flatMap.mp hcolumn
  exact OtherPart.isPrimaryKey (h.others part hpart) column hcolumn

/-- A table is shown with its columns marked, those that count as its key. -/
theorem tables_read_marked (h : table.WellFormed) (title : Text) (grid : Option Er.Grid) :
    (read table.script title grid).diagram.tables = [(table.name.name,
      table.columns.map (Er.Entity.marked table.countedNames table.foreignKeys))] := by
  have hdistinct : Er.Entity.DistinctColumns
      { name := table.name.name, columns := table.columns } :=
    h.distinct
  have hkeys := Er.Entity.columns_applyKeys hdistinct table.countedNames table.foreignKeys
  rw [tables_read, readStatements, statements_script h, List.foldl_cons, List.foldl_nil,
    readStatement_script h, Progress.diagram_addTable, Graph.pool_insert]
  show [((Er.Entity.applyKeys _ table.countedNames _).name,
    (Er.Entity.applyKeys _ table.countedNames _).columns)] = _
  rw [hkeys, Er.Entity.name_applyKeys]

/-- The columns that count are the key of the table, and its other columns are not. -/
theorem forall₂_isKeyed_counted (h : table.WellFormed) :
    List.Forall₂ (IsKeyed (counted table.listed)) table.columns
      (table.columns.map (Er.Entity.marked table.countedNames table.foreignKeys)) := by
  rw [List.forall₂_map_right_iff, List.forall₂_same]
  exact fun column hcolumn => isKeyed_marked (isPrimaryKey_columns h column hcolumn)

theorem distinctColumns_marked (h : table.WellFormed) :
    Er.Entity.DistinctColumns (Er.Entity.mk table.name.name
      (table.columns.map (Er.Entity.marked table.countedNames table.foreignKeys)) 0 0) := by
  unfold Er.Entity.DistinctColumns
  have hnames : (table.columns.map (Er.Entity.marked table.countedNames table.foreignKeys)).map
        (fun column => column.name.lower)
      = table.columns.map fun column => column.name.lower := by
    rw [List.map_map]
    refine List.map_congr_left fun column hcolumn => ?_
    rw [Function.comp_apply]
    exact congrArg Text.lower (isKeyed_marked (isPrimaryKey_columns h column hcolumn)).name
  rw [hnames]
  exact h.distinct

/-- **A key marks every column that it lists**, whatever quotes, lengths and orders they are
written with, if no column but the last has a length.  So a column is the unique key of the table
just if it is the only one listed. -/
theorem tables_read_keyTable (h : table.WellFormed)
    (hlength : ∀ listed ∈ table.listed.dropLast, listed.length = none) (title : Text)
    (grid : Option Er.Grid) :
    ∃ columns, (read table.script title grid).diagram.tables = [(table.name.name, columns)] ∧
      List.Forall₂ (IsKeyed table.listed) table.columns columns ∧
      ∀ column ∈ columns,
        (Er.Entity.mk table.name.name columns 0 0).isUniqueKey column.name = true ↔
          ∀ listed ∈ table.listed, listed.name.name.lower = column.name.lower := by
  have hcounted := counted_eq_self hlength
  have hkeyed := forall₂_isKeyed_counted h
  rw [hcounted] at hkeyed
  refine ⟨_, tables_read_marked h title grid, hkeyed, fun column hcolumn => ?_⟩
  have hmarked : ∀ declared ∈ table.columns, IsKeyed table.listed declared
      (Er.Entity.marked table.countedNames table.foreignKeys declared) := by
    rw [List.forall₂_map_right_iff, List.forall₂_same] at hkeyed
    exact hkeyed
  obtain ⟨declared, hdeclared, rfl⟩ := List.mem_map.mp hcolumn
  have hlists : ∀ {name : Text}, lists table.listed name = true ↔
      ∃ listed ∈ table.listed, name.lower = listed.name.name.lower := by
    intro name
    simp [lists]
  rw [Er.Entity.isUniqueKey_iff_of_distinct (distinctColumns_marked h) hcolumn,
    (hmarked declared hdeclared).isPrimaryKey, (hmarked declared hdeclared).name, hlists]
  constructor
  · rintro ⟨-, hsole⟩ listed hlisted
    obtain ⟨other, hother, hlower⟩ := h.known listed hlisted
    have hother' := hsole _ (List.mem_map_of_mem hother)
    rw [(hmarked other hother).isPrimaryKey, (hmarked other hother).name] at hother'
    exact hlower.symm.trans (hother' (hlists.mpr ⟨listed, hlisted, hlower⟩))
  · intro hall
    obtain ⟨first, others, hfirst⟩ := List.exists_cons_of_ne_nil h.nonempty
    have hmem : first ∈ table.listed := by rw [hfirst]; exact List.mem_cons_self
    refine ⟨⟨first, hmem, (hall first hmem).symm⟩, fun other hother hkey => ?_⟩
    obtain ⟨otherDeclared, hotherDeclared, rfl⟩ := List.mem_map.mp hother
    rw [(hmarked otherDeclared hotherDeclared).isPrimaryKey] at hkey
    obtain ⟨listed, hlisted, hlower⟩ := hlists.mp hkey
    rw [(hmarked otherDeclared hotherDeclared).name]
    exact hlower.trans (hall listed hlisted)

end KeyTable

/-- A written column as a part of a table. -/
def LinkedColumn.part (table : Text) (column : LinkedColumn) : OtherPart where
  text := column.text
  columns := [column.plain]
  foreignKeys := column.keys.flatMap (Key.references table)

/-- A written column that is not marked as the key is such a part. -/
theorem LinkedColumn.wellFormed_part {column : LinkedColumn} (h : column.WellFormed)
    (hkey : column.isMarked .primaryKey = false) (table : Text) :
    (column.part table).WellFormed table where
  solid := LinkedColumn.solid h
  listed := LinkedColumn.uncut quotesApart_listScan h
  bracketed := LinkedColumn.uncut quotesApart_brackets h
  reads := by
    rintro draft rfl
    rw [part, LinkedColumn.readPart draft h, column.primaryNames_keys, hkey]
    simp

/-- The columns of an order line, one of them with a quoted name. -/
def lineColumns : List LinkedColumn :=
  [{ name := { name := "Order".toList, quotes := .backticks }, type := { word := "INT".toList } },
    { name := { name := "sku".toList }
      type := { word := "VARCHAR".toList, lengths := ["40".toList] }, clauses := [.mark .notNull] },
    { name := { name := "note".toList }, type := { word := "TEXT".toList } }]

/-- A table of order lines, with a key between its columns. -/
def lineTable (listed : List ListedColumn) : KeyTable where
  name := { name := "line".toList }
  front := (lineColumns.take 2).map (LinkedColumn.part "line".toList)
  constraint := some { name := "pk".toList }
  listed
  back := (lineColumns.drop 2).map (LinkedColumn.part "line".toList)

/-- A key with quotes, an order and a length. -/
def lineKey : List ListedColumn :=
  [{ name := { name := "ORDER".toList, quotes := .doubleQuotes }, order := some "DESC".toList },
    { name := { name := "sku".toList }, front := " ".toList, length := some "10".toList
      order := some "ASC".toList }]

theorem wellFormed_lineKey : ∀ listed ∈ lineKey, listed.WellFormed := by
  have hnone : ∀ {P : Text → Prop}, ∀ text ∈ (none : Option Text), P text :=
    fun text h => absurd h (Option.not_mem_none text)
  have hword : ∀ {word : Text}, word ≠ [] → word.all isWordChar = true →
      ∀ order ∈ some word, order ≠ [] ∧ ∀ c ∈ order, isWordChar c = true := by
    rintro word hne hall _ ⟨⟩
    exact ⟨hne, List.all_eq_true.mp hall⟩
  refine List.forall_mem_cons.mpr ⟨⟨by decide, List.forall_mem_nil _, List.forall_mem_nil _, hnone,
    hword (by decide) rfl⟩, List.forall_mem_singleton.mpr ⟨by decide,
      List.forall_mem_singleton.mpr (by decide), List.forall_mem_nil _, ?_, hword (by decide) rfl⟩⟩
  rintro _ ⟨⟩
  exact ⟨by decide, by decide⟩

theorem wellFormed_lineTable : (lineTable lineKey).WellFormed := by
  have hcolumns : ∀ column ∈ lineColumns,
      column.WellFormed ∧ column.isMarked .primaryKey = false := by
    decide
  have hpart : ∀ column ∈ lineColumns, (column.part "line".toList).WellFormed "line".toList :=
    fun column hcolumn =>
      LinkedColumn.wellFormed_part (hcolumns column hcolumn).1 (hcolumns column hcolumn).2 _
  refine ⟨by decide, List.forall_mem_append.mpr ⟨?_, ?_⟩, by decide, List.cons_ne_nil _ _,
    wellFormed_lineKey, by decide +kernel, by decide +kernel, by decide +kernel, by decide +kernel,
    by decide +kernel⟩
  · intro part hmem
    obtain ⟨column, hcolumn, rfl⟩ := List.mem_map.mp hmem
    exact hpart column (List.mem_of_mem_take hcolumn)
  · intro part hmem
    obtain ⟨column, hcolumn, rfl⟩ := List.mem_map.mp hmem
    exact hpart column (List.mem_of_mem_drop hcolumn)

/-- The first two columns of an order line are its key. -/
theorem tables_read_lineTable :
    (lineTable lineKey).WellFormed ∧ (∀ listed ∈ lineKey.dropLast, listed.length = none) ∧
    ∃ columns, (read (lineTable lineKey).script [] none).diagram.tables
      = [("line".toList, columns)] ∧
      List.Forall₂ (KeyTable.IsKeyed lineKey) (lineTable lineKey).columns columns ∧
      ∀ column ∈ columns,
        (Er.Entity.mk "line".toList columns 0 0).isUniqueKey column.name = true ↔
          ∀ listed ∈ lineKey, listed.name.name.lower = column.name.lower := by
  have hlength : ∀ listed ∈ lineKey.dropLast, listed.length = none :=
    List.forall_mem_singleton.mpr rfl
  exact ⟨wellFormed_lineTable, hlength,
    KeyTable.tables_read_keyTable wellFormed_lineTable hlength [] none⟩

/-- The column behind one with a length is lost from the key. -/
theorem tables_read_cutKey :
    ((read "CREATE TABLE t (a INT, b INT, PRIMARY KEY (a(10), b));".toList []
      none).diagram.tables.map
        fun table => table.2.map fun column =>
          (column.name, column.isPrimaryKey, column.isNullable))
      = [[("a".toList, true, false), ("b".toList, false, true)]] := by
  decide +kernel

end Diagrams.Schema.Written
