/-
Lists of written names.

A list is cut at its commas, and from each item the reader takes the first word, up to a
bracket, and puts away the quotes and the schema.  An item that is a written name loses
nothing but its quotes on the way, so a list of written names is read as the list of their
names (`identifierList_nameList`).
-/
import Diagrams.Proofs.Schema.WrittenText

namespace Diagrams.Schema.Written

/-! ### One item -/

theorem isNameQuote_of_isWordChar {c : Char} (h : isWordChar c = true) : isNameQuote c = false := by
  by_contra hquote
  have hmark := Bool.eq_true_of_not_eq_false hquote
  simp only [isNameQuote, Bool.or_eq_true, beq_iff_eq] at hmark
  rcases hmark with (((rfl | rfl) | rfl) | rfl) | rfl <;> exact absurd h (by decide)

theorem isNameQuote_of_isOpenQuote {c : Char} (h : isOpenQuote c = true) :
    isNameQuote c = true := by
  simp only [isOpenQuote, Bool.or_eq_true, beq_iff_eq] at h
  rcases h with (rfl | rfl) | rfl <;> decide

theorem isNameQuote_of_isCloseQuote {c : Char} (h : isCloseQuote c = true) :
    isNameQuote c = true := by
  simp only [isCloseQuote, Bool.or_eq_true, beq_iff_eq] at h
  rcases h with (rfl | rfl) | rfl <;> decide

/-- Quotes around a word are put away. -/
theorem strip_quoted {opening word closing : Text} (hopening : ∀ c ∈ opening, isNameQuote c = true)
    (hclosing : ∀ c ∈ closing, isNameQuote c = true)
    (hword : ∀ c ∈ word, isWordChar c = true) :
    Text.strip isNameQuote (opening ++ (word ++ closing)) = word := by
  have hquote : ∀ c ∈ word, isNameQuote c = false :=
    fun c hc => isNameQuote_of_isWordChar (hword c hc)
  exact Text.strip_between hopening hclosing (fun c hc => hquote c (List.mem_of_mem_head? hc))
    fun c hc => hquote c (List.mem_of_mem_getLast? hc)

/-- What is put away from a written name are its quotes. -/
theorem unquote_text {written : Name} (h : isIdentifier written.name = true) :
    unquote written.text = written.name := by
  have hword := isWordChar_of_isIdentifier h
  have htrim : written.text.trim = written.text :=
    Text.strip_eq_self (Name.solid h).head? (Name.solid h).getLast?
  have hstrip : Text.strip isNameQuote written.text = written.name :=
    strip_quoted
      (fun c hc => isNameQuote_of_isOpenQuote (written.quotes.atMostOne_opening.forall c hc))
      (fun c hc => isNameQuote_of_isCloseQuote (written.quotes.atMostOne_closing.forall c hc))
      hword
  have hpoint : written.name.afterLast? '.' = none :=
    Text.afterLast?_of_not_mem (not_mem_of_forall hword (by decide))
  unfold unquote
  simp only [htrim, hstrip, hpoint]

theorem unquote_name {written : Name} (h : isIdentifier written.name = true) :
    unquote written.name = written.name := by
  have hbare : isIdentifier (Name.mk written.name .none).name = true := h
  simpa [Name.text, Quotes.opening, Quotes.closing] using unquote_text hbare

theorem withoutArguments_of_forall {item : Text} (h : ∀ c ∈ item, c ≠ '\n' ∧ c ≠ '(') :
    withoutArguments item = item := by
  have hline : item.reverse.takeWhile (· != '\n') = item.reverse := by
    refine List.takeWhile_eq_self_iff.mpr fun c hc => ?_
    simpa using (h c (List.mem_reverse.mp hc)).1
  have hbracket : item.takeWhile (· != '(') = item := by
    refine List.takeWhile_eq_self_iff.mpr fun c hc => ?_
    simpa using (h c hc).2
  simp [withoutArguments, hline, hbracket]

/-- An item falls into its last line and what stands in front of it. -/
theorem exists_lastLine (item : Text) : ∃ front line, item = front ++ line ∧ '\n' ∉ line ∧
    (∀ c ∈ front.getLast?, c = '\n') ∧
    withoutArguments item = front ++ line.takeWhile (· != '(') := by
  have hsplit : item.rdropWhile (· != '\n') ++ item.rtakeWhile (· != '\n') = item :=
    List.rdropWhile_append_rtakeWhile
  refine ⟨item.rdropWhile (· != '\n'), item.rtakeWhile (· != '\n'), hsplit.symm,
    fun hmem => by simpa using List.mem_rtakeWhile_imp hmem, fun c hc => ?_, ?_⟩
  · obtain ⟨hne, rfl⟩ := List.mem_getLast?_eq_getLast hc
    simpa using List.rdropWhile_last_not (· != '\n') item hne
  · have hlength := congrArg List.length hsplit
    rw [List.length_append] at hlength
    have hfront : item.take (item.length - (item.rtakeWhile (· != '\n')).length)
        = item.rdropWhile (· != '\n') := by
      rw [← hlength, Nat.add_sub_cancel]
      exact (List.prefix_iff_eq_take.mp ⟨_, hsplit⟩).symm
    exact congrArg (· ++ _) hfront

/-- What stands in front of an opening bracket is left, if the bracket is on the last line. -/
theorem withoutArguments_opening {front inner : Text} (hfront : '(' ∉ front)
    (hinner : '\n' ∉ inner) : withoutArguments (front ++ '(' :: inner) = front := by
  obtain ⟨far, line, hsplit, -, hfar, hbare⟩ := exists_lastLine (front ++ '(' :: inner)
  -- The last line starts in the front, since no line ends at the bracket or behind it.
  obtain ⟨near, rfl, rfl⟩ : ∃ near, front = far ++ near ∧ line = near ++ '(' :: inner := by
    rcases List.append_eq_append_iff.mp hsplit with ⟨extra, rfl, hextra⟩ | ⟨near, hnear, hline⟩
    · rcases List.eq_nil_or_concat' extra with rfl | ⟨begun, c, rfl⟩
      · exact ⟨[], by simp, by simpa using hextra.symm⟩
      · obtain rfl : c = '\n' := hfar c (by simp)
        have hmem : '\n' ∈ '(' :: inner := by rw [hextra]; simp
        exact absurd ((List.mem_cons.mp hmem).resolve_left (by decide)) hinner
    · exact ⟨near, hnear, hline⟩
  have hnear : ∀ c ∈ near, (c != '(') = true := by
    intro c hc
    have hne : c ≠ '(' := fun heq => hfront (heq ▸ List.mem_append_right far hc)
    simpa using hne
  rw [hbare, takeWhile_append_of_stop hnear (forall_head?_cons (by decide) _)]

/-- An item starts with the name in it, if only blanks stay behind the name when its bracket is put
away. -/
theorem listedName_of_behind {front word behind back left : Text}
    (hfront : ∀ c ∈ front, isBlank c = true) (hback : ∀ c ∈ back, isBlank c = true)
    (hsolid : Solid (word ++ behind)) (hne : word ≠ []) (hword : ∀ c ∈ word, isBlank c = false)
    (hbare : withoutArguments (word ++ behind) = word ++ left)
    (hleft : ∀ c ∈ left.head?, isBlank c = true) :
    listedName (front ++ ((word ++ behind) ++ back)) = unquote word := by
  rw [listedName, Text.trim_between hfront hback hsolid.head? hsolid.getLast?, hbare,
    Text.head?_words_of_word hne hword hleft, Option.getD_some]

/-- An item that is a written name is read as the name, also with a space in front of it. -/
theorem listedName_text {written : Name} (h : isIdentifier written.name = true) :
    listedName written.text = written.name ∧ listedName (' ' :: written.text) = written.name := by
  have hchars := Name.isNameChar h
  have htrim : written.text.trim = written.text :=
    Text.strip_eq_self (Name.solid h).head? (Name.solid h).getLast?
  have hbare : withoutArguments written.text = written.text := by
    refine withoutArguments_of_forall fun c hc => ?_
    constructor
    · rintro rfl
      exact absurd (hchars _ hc) (by decide)
    · rintro rfl
      exact absurd (hchars _ hc) (by decide)
  have hwords : written.text.words = [written.text] :=
    Text.words_of_forall (Name.ne_nil h) fun c hc => isBlank_of_isNameChar (hchars c hc)
  have hspace : isBlank ' ' = true := by decide
  unfold listedName
  rw [Text.trim_cons_of_blank hspace, htrim, hbare, hwords]
  exact ⟨unquote_text h, unquote_text h⟩

/-! ### Whole lists -/

/-- A list of pieces without commas is read piece by piece. -/
theorem identifierList_pieces {pieces : List Text} (hne : pieces ≠ [])
    (hcommas : ∀ piece ∈ pieces, ',' ∉ piece) :
    identifierList (Text.joined [','] pieces)
      = (pieces.map listedName).filter fun name => !name.isEmpty := by
  have hsplit : Text.splitWhere (· == ',') (Text.joined [','] pieces) = pieces :=
    Text.splitWhere_joined (beq_self_eq_true ',') hne fun piece hpiece c hc =>
      beq_eq_false_iff_ne.mpr fun heq => hcommas piece hpiece (heq ▸ hc)
  unfold identifierList
  rw [hsplit]

/-- A list of items whose texts hold no commas is read item by item. -/
theorem identifierList_joined {α : Type} {text name : α → Text} {items : List α}
    (hcommas : ∀ item ∈ items, ',' ∉ text item)
    (hnames : ∀ item ∈ items, listedName (text item) = name item) :
    identifierList (Text.joined [','] (items.map text))
      = (items.map name).filter fun name => !name.isEmpty := by
  cases items with
  | nil => rfl
  | cons first others =>
      rw [identifierList_pieces (by simp) (List.forall_mem_map.mpr hcommas), List.map_map]
      refine congrArg _ (List.map_congr_left fun item hitem => ?_)
      rw [Function.comp_apply, hnames item hitem]

/-- A list of written names is read as the list of their names. -/
theorem identifierList_nameList {names : List Name} (h : NamesWellFormed names) :
    identifierList (nameList names) = names.map Name.name := by
  obtain ⟨written, others, rfl⟩ := List.exists_cons_of_ne_nil h.nonempty
  obtain ⟨hwritten, hothers⟩ := List.forall_mem_cons.mp h.names
  have hcomma : ∀ {other : Name}, isIdentifier other.name = true → ',' ∉ other.text :=
    fun hother => not_mem_of_forall (Name.isNameChar hother) (by decide)
  -- The space behind a comma starts the next piece.
  obtain ⟨later, hlater⟩ : ∃ later,
      later = (others.map Name.text).map fun next => [' '] ++ next := ⟨_, rfl⟩
  have hlist : nameList (written :: others) = Text.joined [','] (written.text :: later) :=
    hlater ▸ Text.joined_append [','] [' '] written.text (others.map Name.text)
  have hcommas : ∀ piece ∈ written.text :: later, ',' ∉ piece := by
    refine List.forall_mem_cons.mpr ⟨hcomma hwritten, fun piece hpiece => ?_⟩
    rw [hlater, List.map_map] at hpiece
    obtain ⟨other, hother, rfl⟩ := List.mem_map.mp hpiece
    exact List.not_mem_cons_of_ne_of_not_mem (by decide) (hcomma (hothers other hother))
  have hnames : (written.text :: later).map listedName = (written :: others).map Name.name := by
    rw [List.map_cons, List.map_cons, (listedName_text hwritten).1, hlater,
      List.map_map, List.map_map]
    refine congrArg (written.name :: ·) (List.map_congr_left fun other hother => ?_)
    rw [Function.comp_apply, Function.comp_apply, List.singleton_append]
    exact (listedName_text (hothers other hother)).2
  rw [hlist, identifierList_pieces (List.cons_ne_nil _ _) hcommas, hnames, List.filter_eq_self]
  intro name hname
  obtain ⟨other, hother, rfl⟩ := List.mem_map.mp hname
  simpa using ne_nil_of_isIdentifier (h.names other hother)

/-- The foreign keys of a written list of columns. -/
theorem foreignKeys_nameList {table : Text} {columns targetColumns : List Name} {target : Name}
    (h : (Key.foreign columns target targetColumns).WellFormed) :
    foreignKeys table (nameList columns) target.name (some (nameList targetColumns))
      = (Key.foreign columns target targetColumns).references table := by
  obtain ⟨hcolumns, htarget, htargetColumns⟩ := h
  unfold foreignKeys Key.references
  rw [Option.getD_some, identifierList_nameList hcolumns, identifierList_nameList htargetColumns,
    unquote_name htarget, List.zipIdx_map, List.map_map]
  rfl

end Diagrams.Schema.Written
