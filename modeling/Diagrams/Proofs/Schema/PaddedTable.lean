/-
The table that is read out of the two spellings of a statement.

Every pattern that a table is read with finds the same in both spellings, and so do the cuts
between them.  What is left of the statement after a cut is a stretch of it in its two
spellings again, so the readings are followed from the statement to its list, from there to the
parts, and to the options of a column.
-/
import Diagrams.Proofs.Schema.Congruence
import Diagrams.Proofs.Schema.PaddedNames
import Diagrams.Proofs.Schema.SpreadGrammar

namespace Diagrams

open Padded Pattern Schema

namespace Schema.Grammar

theorem notesWord_columnHead : NotesWord .name columnHead := by
  simp (disch := decide) [columnHead, notesOnly_all, NotesOnly.of_mayNote, notesWord_identifier]

end Schema.Grammar

/-! ### Stretches of a statement -/

namespace Padded

variable {padded far : Padded}

/-- A stretch of a script in two spellings, without quotes and with the names in its lists
intact. -/
structure Spaced (padded : Padded) : Prop extends Sound padded where
  spares : SparesArguments padded
  unquoted : Unquoted (tight padded)

theorem Spaced.of_within (h : Spaced padded) (hfar : far <:+: padded) : Spaced far :=
  ⟨h.toSound.of_within hfar, h.spares.of_within hfar, fun c hc =>
    h.unquoted c (mem_tight_of_within hfar hc)⟩

theorem Spaced.refersAlike (h : Spaced padded) {p : Pattern Slot} (hlists : NotesLists p)
    (hword : Grammar.NotesWord .target p) {found found' : Match Slot}
    (hpaired : Paired p padded found found') :
    RefersAlike found found' := fun table _ _ hcolumns =>
  hpaired.foreignKeys_eq h.toSound h.spares hlists hword table hcolumns

theorem Spaced.columns_eq (h : Spaced padded) {p : Pattern Slot} (hlists : NotesLists p)
    {found found' : Match Slot} (hpaired : Paired p padded found found') :
    identifierList (found.text .columns) = identifierList (found'.text .columns) :=
  hpaired.identifierList_eq h.toSound h.spares hlists rfl

end Padded

/-! ### Parts -/

section

variable {part options : Padded} {p : Pattern Slot} {found found' : Match Slot}

/-- A column with its options is the same in both spellings. -/
theorem addColumn_padded (hoptions : Spaced options) (draft : Draft)
    (hname : found.text .name = found'.text .name)
    (htype : (found.text .type).words = (found'.text .type).words) :
    draft.addColumn found (tight options) = draft.addColumn found' (wide options) := by
  refine addColumn_congr draft hname ?_
    (occursIn_padded hoptions.toSound Grammar.prospect?_notNull rfl)
    (occursIn_padded hoptions.toSound Grammar.prospect?_inlinePrimaryKey rfl) ?_
  · rw [normalizeType, normalizeType, Text.respaced, Text.respaced, htype]
  · exact rel_imp (find?_paired hoptions.toSound Grammar.prospect?_inlineReferences rfl) fun _ _ =>
      hoptions.refersAlike .inlineReferences Grammar.notesWord_inlineReferences

/-- What two matches at the start of a part leave behind are its options in two spellings. -/
theorem exists_options (hpart : Spaced part) (hpaired : PairedAt p part [] part found found') :
    ∃ options, Spaced options ∧ found.rest = tight options ∧ found'.rest = wide options := by
  obtain ⟨covered, options, hsplit, hlast⟩ := hpaired.last
  refine ⟨options, hpart.of_within ⟨covered, [], by simp [hsplit]⟩, hlast.rest, hlast.rest'⟩

variable (hpart : Spaced part) (hadds : AddsBlanks part)
    (hfirst : ∀ item ∈ part.head?, isBlank item.2 = false)

include hpart hadds hfirst

theorem firm_of_part : ∀ d behind, part = (none, d) :: behind → tight behind = [] := by
  rintro d behind rfl
  have hsolid := hfirst (none, d) rfl
  rw [hadds d List.mem_cons_self] at hsolid
  exact Bool.noConfusion hsolid

theorem readPart_padded (draft : Draft) :
    (readPart draft (tight part)).toOption = (readPart draft (wide part)).toOption := by
  have hempty : (tight part).isEmpty = (wide part).isEmpty := by
    rcases part with _ | ⟨⟨_ | c, d⟩, others⟩
    · rfl
    · have hfirm := firm_of_part hpart hadds hfirst d others rfl
      have hsolid := hfirst (none, d) rfl
      rw [hadds d List.mem_cons_self] at hsolid
      exact Bool.noConfusion hsolid
    · rfl
  have hprimary := matchStart?_of_loose hpart.toSound Grammar.prospect?_primaryKeyPart rfl
  have hforeign := matchStart?_of_loose hpart.toSound Grammar.prospect?_foreignKeyPart rfl
  have hother := isSome_eq_of_rel
    (matchStart?_of_loose hpart.toSound Grammar.prospect?_otherConstraint rfl)
  have hcolumn := matchStart?_of_firm hpart.toSound Grammar.prospect?_columnHead
    (firm_of_part hpart hadds hfirst)
  unfold readPart
  rw [hempty, hother, Grammar.matchStart?_column, Grammar.matchStart?_column]
  cases (wide part).isEmpty with
  | true => rfl
  | false =>
  generalize Grammar.primaryKeyPart.matchStart? (tight part) = primary,
    Grammar.primaryKeyPart.matchStart? (wide part) = primary' at hprimary ⊢
  cases hprimary with
  | some hpaired =>
      have hcolumns := hpart.columns_eq .primaryKeyPart ⟨_, _, hpaired⟩
      simp [addPrimaryKey_congr draft hcolumns]
  | none =>
  generalize Grammar.foreignKeyPart.matchStart? (tight part) = foreign,
    Grammar.foreignKeyPart.matchStart? (wide part) = foreign' at hforeign ⊢
  cases hforeign with
  | some hpaired =>
      have hcolumns := hpart.columns_eq .foreignKeyPart ⟨_, _, hpaired⟩
      have hrefers := hpart.refersAlike .foreignKeyPart Grammar.notesWord_foreignKeyPart
        ⟨_, _, hpaired⟩
      simp [addForeignKeys_congr draft hrefers hcolumns]
  | none =>
  cases (Grammar.otherConstraint.matchStart? (wide part)).isSome with
  | true => rfl
  | false =>
  generalize Grammar.columnHead.matchStart? (tight part) = head,
    Grammar.columnHead.matchStart? (wide part) = head' at hcolumn ⊢
  cases hcolumn with
  | none => rfl
  | @some head head' hpaired =>
      obtain ⟨options, hoptions, hrest, hrest'⟩ := exists_options hpart hpaired
      have hname : (Grammar.withOptions head).text .name
          = (Grammar.withOptions head').text .name := by
        rw [Grammar.text_withOptions_of_ne _ (by decide),
          Grammar.text_withOptions_of_ne _ (by decide)]
        exact Paired.text_eq ⟨_, _, hpaired⟩ hpart.toSound Grammar.notesWord_columnHead
      have htype : ((Grammar.withOptions head).text .type).words
          = ((Grammar.withOptions head').text .type).words := by
        rw [Grammar.text_withOptions_of_ne _ (by decide),
          Grammar.text_withOptions_of_ne _ (by decide)]
        exact Paired.words_eq ⟨_, _, hpaired⟩ hpart.toSound hadds .type
      simp only [Option.map_some, Grammar.text_withOptions, hrest, hrest',
        addColumn_padded hoptions draft hname htype, hname]
      cases isConstraintWord ((Grammar.withOptions head').text .name) <;> rfl

theorem salvagePart_padded (draft : Draft) (unreadable unreadable' : List Text) :
    (salvagePart (draft, unreadable) (tight part)).1
      = (salvagePart (draft, unreadable') (wide part)).1 := by
  have hother := isSome_eq_of_rel
    (matchStart?_of_loose hpart.toSound Grammar.prospect?_otherConstraint rfl)
  have hcolumn := matchStart?_of_firm hpart.toSound Grammar.prospect?_looseColumn
    (firm_of_part hpart hadds hfirst)
  simp only [salvagePart]
  rw [Padded.words_eq hpart.toSound hadds, hother]
  cases isConstraintWord ((wide part).words.head?.getD []) ||
      (Grammar.otherConstraint.matchStart? (wide part)).isSome with
  | true => rfl
  | false =>
  generalize Grammar.looseColumn.matchStart? (tight part) = found,
    Grammar.looseColumn.matchStart? (wide part) = found' at hcolumn ⊢
  cases hcolumn with
  | none => rfl
  | @some found found' hpaired =>
      obtain ⟨options, hoptions, hrest, hrest'⟩ := exists_options hpart hpaired
      have hname := Paired.text_eq ⟨_, _, hpaired⟩ hpart.toSound Grammar.notesWord_looseColumn
      have htype := Paired.words_eq ⟨_, _, hpaired⟩ hpart.toSound hadds .type
      simpa [hrest, hrest'] using addColumn_padded hoptions draft hname htype

theorem partAlike_padded : PartAlike (tight part) (wide part) :=
  ⟨readPart_padded hpart hadds hfirst, salvagePart_padded hpart hadds hfirst⟩

end

theorem forall₂_partAlike_padded {stretches : List Padded}
    (h : ∀ stretch ∈ stretches, Spaced stretch ∧ AddsBlanks stretch ∧
      ∀ item ∈ stretch.head?, isBlank item.2 = false) :
    List.Forall₂ PartAlike (stretches.map tight) (stretches.map wide) := by
  rw [List.forall₂_map_left_iff, List.forall₂_map_right_iff, List.forall₂_same]
  rintro stretch hstretch
  obtain ⟨hspaced, hadds, hfirst⟩ := h stretch hstretch
  exact partAlike_padded hspaced hadds hfirst

/-- The parts of a list are read alike in both spellings. -/
theorem forall₂_partAlike_parts {list : Padded} (h : Spaced list) (hadds : AddsBlanks list) :
    List.Forall₂ PartAlike (parts (tight list)) (parts (wide list)) := by
  obtain ⟨stretches, htight, hwide, hparts⟩ := exists_parts h.toSound hadds h.unquoted
  rw [htight, hwide]
  refine forall₂_partAlike_padded fun stretch hstretch => ?_
  obtain ⟨hwithin, hfirst⟩ := hparts stretch hstretch
  exact ⟨h.of_within hwithin, hadds.of_within hwithin, hfirst⟩

/-! ### The strict reading -/

section

variable {statement : Padded}

/-- **A table is read strictly alike in both spellings.** -/
theorem readTable_padded (h : Spaced statement) :
    (readTable (tight statement)).toOption = (readTable (wide statement)).toOption := by
  have hheader := matchStart?_of_loose h.toSound Grammar.prospect?_createTable rfl
  unfold readTable
  generalize Grammar.createTable.matchStart? (tight statement) = header,
    Grammar.createTable.matchStart? (wide statement) = header' at hheader ⊢
  cases hheader with
  | none => rfl
  | @some header header' hpaired =>
      have hname := Paired.text_eq ⟨_, _, hpaired⟩ h.toSound Grammar.notesWord_createTable
      obtain ⟨rest, hspaced, hrest, hrest'⟩ := exists_options h hpaired
      dsimp only
      rw [hrest, hrest', hname]
      rcases body?_padded hspaced.toSound hspaced.unquoted with
        ⟨hnone, hnone'⟩ | ⟨list, behind, rfl, hlist, hlist'⟩
      · rw [hnone, hnone']
      · have hwithin : list <:+: list ++ (some ')', ')') :: behind := ⟨[], _, rfl⟩
        have hadds : AddsBlanks list :=
          @Sound.addsBlanks [] list ((some ')', ')') :: behind) hspaced.toSound
            (List.cons_ne_nil _ _)
        simp only [hlist, hlist', toOption_map,
          foldlM_readPart_congr (forall₂_partAlike_parts (hspaced.of_within hwithin) hadds)]

/-! ### The permissive reading -/

/-- A statement in two spellings.  In the tight one it has no semicolon, and in the wide one a
semicolon may stand right behind its last character. -/
structure Padded.Statement (statement : Padded) : Prop extends Spaced statement where
  body : ';' ∉ tight statement
  ending : ∀ front, statement = front ++ [(none, ';')] → ∀ item ∈ front.getLast?,
    isBlank item.2 = false

/-- The first sign of a kind is the same in both spellings. -/
theorem Padded.exists_first {rest : Padded} (h : Sound rest) {sign : Char}
    (hsign : isFiller sign = false) :
    (∀ c ∈ tight rest, c ≠ sign) ∧ (∀ c ∈ wide rest, c ≠ sign) ∨
      ∃ front behind, rest = front ++ (some sign, sign) :: behind ∧
        (∀ c ∈ tight front, c ≠ sign) ∧ ∀ c ∈ wide front, c ≠ sign := by
  induction rest with
  | nil => exact .inl ⟨by simp, by simp⟩
  | cons item rest ih =>
      have hblank : ∀ e, isFiller e = true → e ≠ sign := by
        rintro e he rfl
        exact absurd (hsign.symm.trans he) (by decide)
      obtain ⟨_ | c, d⟩ := item
      · have hd := hblank d h.isFiller_of_head
        rcases ih h.of_cons with ⟨htight, hwide⟩ | ⟨front, behind, rfl, htight, hwide⟩
        · exact .inl ⟨htight, List.forall_mem_cons.mpr ⟨hd, hwide⟩⟩
        · exact .inr ⟨(none, d) :: front, behind, rfl, htight, List.forall_mem_cons.mpr ⟨hd, hwide⟩⟩
      · by_cases hc : c = sign
        · obtain rfl : c = d := by
            rcases h.own c d List.mem_cons_self with rfl | ⟨hblank', -⟩
            · rfl
            · exact absurd hc (hblank c (isFiller_of_isBlank hblank'))
          subst hc
          exact .inr ⟨[], rest, rfl, by simp, by simp⟩
        · have hd : d ≠ sign := by
            rcases h.own c d List.mem_cons_self with rfl | ⟨-, hblank'⟩
            · exact hc
            · exact hblank d (isFiller_of_isBlank hblank')
          rcases ih h.of_cons with ⟨htight, hwide⟩ | ⟨front, behind, rfl, htight, hwide⟩
          · exact .inl ⟨List.forall_mem_cons.mpr ⟨hc, htight⟩, List.forall_mem_cons.mpr ⟨hd, hwide⟩⟩
          · exact .inr ⟨(some c, d) :: front, behind, rfl, List.forall_mem_cons.mpr ⟨hc, htight⟩,
              List.forall_mem_cons.mpr ⟨hd, hwide⟩⟩

/-- Where only blanks are added, the wide spelling has no semicolon of its own. -/
theorem Padded.semicolon_not_mem_wide {list : Padded} (h : Sound list) (hadds : AddsBlanks list)
    (hbody : ';' ∉ tight list) : ∀ c ∈ wide list, (c == ';') = false := by
  intro c hc
  rw [beq_eq_false_iff_ne]
  rintro rfl
  obtain ⟨⟨own, d⟩, hitem, hd⟩ := List.mem_map.mp hc
  obtain rfl : d = ';' := hd
  rcases own with _ | c
  · exact absurd (hadds ';' hitem) (by decide)
  · rcases h.own c ';' hitem with rfl | ⟨-, hblank⟩
    · exact hbody (List.mem_filterMap.mpr ⟨_, hitem, rfl⟩)
    · exact absurd hblank (by decide)

/-- The rest of a statement without the blanks and the semicolon behind it. -/
theorem Padded.Statement.exists_ending (h : Padded.Statement statement) {front rest : Padded}
    (hsplit : statement = front ++ rest) : ∃ list, list <:+: rest ∧ AddsBlanks list ∧
      (Text.dropEnd isBlank (tight rest)).dropEnd (· == ';') = tight list ∧
      (Text.dropEnd isBlank (wide rest)).dropEnd (· == ';') = wide list := by
  have hrest : Sound rest := h.toSound.of_within ⟨front, [], by simp [hsplit]⟩
  have hbody : ∀ {list}, list <:+: rest → ';' ∉ tight list := fun hlist hmem => by
    refine h.body ?_
    rw [hsplit, tight_append]
    exact List.mem_append_right _ (mem_tight_of_within hlist hmem)
  have hkeep : ∀ {text : Text}, (∀ c ∈ text, (c == ';') = false) →
      Text.dropEnd (· == ';') text = text :=
    fun htext => Text.dropEnd_eq_self fun c hc => htext c (List.mem_of_mem_getLast? hc)
  have hplain : ∀ {list : Padded}, list <:+: rest → AddsBlanks list →
      (Text.dropEnd isBlank (tight list)).dropEnd (· == ';') = tight (trimEnd list) ∧
        (Text.dropEnd isBlank (wide list)).dropEnd (· == ';') = wide (trimEnd list) := by
    intro list hlist hadds
    have hend : trimEnd list <:+: list := (List.rdropWhile_prefix _ _).isInfix
    rw [← tight_trimEnd (hrest.of_within hlist) hadds, ← wide_trimEnd]
    refine ⟨hkeep fun c hc => ?_, hkeep ?_⟩
    · rw [beq_eq_false_iff_ne]
      rintro rfl
      exact hbody (hend.trans hlist) hc
    · exact semicolon_not_mem_wide (hrest.of_within (hend.trans hlist)) (hadds.of_within hend)
        (hbody (hend.trans hlist))
  by_cases hends : ∃ list, rest = list ++ [(none, ';')]
  · obtain ⟨list, rfl⟩ := hends
    have hlist : list <:+: list ++ [(none, ';')] := ⟨[], _, rfl⟩
    have hadds : AddsBlanks list := by
      intro d hd
      obtain ⟨before, after, rfl⟩ := List.append_of_mem hd
      rcases hrest.added before d (after ++ [(none, ';')]) (by simp) with ⟨hblank, -⟩ | ⟨-, hnil⟩
      · exact hblank
      · exact absurd hnil (by simp)
    have hlast : ∀ c ∈ (wide list).getLast?, isBlank c = false := by
      intro c hc
      rw [wide, List.getLast?_map] at hc
      obtain ⟨item, hitem, rfl⟩ := Option.map_eq_some_iff.mp hc
      refine h.ending (front ++ list) (by simp [hsplit]) item ?_
      rw [List.getLast?_append, hitem]
      rfl
    have hwide : (Text.dropEnd isBlank (wide list ++ [';'])).dropEnd (· == ';')
        = (Text.dropEnd isBlank (wide list)).dropEnd (· == ';') := by
      have hblank : isBlank ';' = false := by decide
      rw [Text.dropEnd_eq_self hlast,
        @Text.dropEnd_eq_self _ (wide list ++ [';']) (by simpa using hblank)]
      simp [Text.dropEnd]
    refine ⟨trimEnd list, (List.rdropWhile_prefix _ _).isInfix.trans hlist,
      hadds.of_within (List.rdropWhile_prefix _ _).isInfix, ?_, ?_⟩
    · simpa using (hplain hlist hadds).1
    · rw [wide_append, wide_cons, wide_nil, hwide]
      exact (hplain hlist hadds).2
  · have hadds : AddsBlanks rest := by
      intro d hd
      obtain ⟨before, after, rfl⟩ := List.append_of_mem hd
      rcases hrest.added before d after rfl with ⟨hblank, -⟩ | ⟨rfl, rfl⟩
      · exact hblank
      · exact absurd ⟨before, rfl⟩ hends
    exact ⟨trimEnd rest, (List.rdropWhile_prefix _ _).isInfix,
      hadds.of_within (List.rdropWhile_prefix _ _).isInfix, hplain (List.infix_refl rest) hadds⟩

/-- The list of a table behind its name. -/
theorem Padded.Statement.exists_looseList (h : Padded.Statement statement) {front rest : Padded}
    (hsplit : statement = front ++ rest) : ∃ list, list <:+: rest ∧ AddsBlanks list ∧
      looseList (tight rest) = tight list ∧ looseList (wide rest) = wide list := by
  have hrest : Spaced rest := h.toSpaced.of_within ⟨front, [], by simp [hsplit]⟩
  rcases exists_first hrest.toSound (by decide : isFiller '(' = false) with
    ⟨htight, hwide⟩ | ⟨before, behind, rfl, htight, hwide⟩
  · have hnone : ∀ {text : Text}, (∀ c ∈ text, c ≠ '(') → looseList text = [] := fun htext => by
      rw [looseList, List.dropWhile_eq_nil_iff.mpr fun c hc => by simpa using htext c hc]
    exact ⟨[], List.nil_infix, by simp [AddsBlanks], hnone htight, hnone hwide⟩
  · have hbehind : Spaced behind := hrest.of_within ⟨before ++ [(some '(', '(')], [], by simp⟩
    have hopening : ∀ {front rest : Text}, (∀ c ∈ front, c ≠ '(') →
        looseList (front ++ '(' :: rest) = looseList ('(' :: rest) := by
      intro front rest hfront
      unfold looseList
      rw [List.dropWhile_append_of_pos fun c hc => by simpa using hfront c hc]
    have hclosed : ∀ {rest list after : Text},
        Brackets.round.body? ('(' :: rest) = some (list, after) →
          looseList ('(' :: rest) = list := fun hbody => by
      simp [looseList, hbody]
    have hunclosed : ∀ {rest : Text}, Brackets.round.body? ('(' :: rest) = none →
        looseList ('(' :: rest) = (Text.dropEnd isBlank rest).dropEnd (· == ';') := fun hbody => by
      simp [looseList, hbody]
    rw [tight_append, tight_own, wide_append, wide_cons, hopening htight, hopening hwide]
    rcases body?_padded hbehind.toSound hbehind.unquoted with
      ⟨hnone, hnone'⟩ | ⟨list, after, rfl, hlist, hlist'⟩
    · rw [hunclosed hnone, hunclosed hnone']
      obtain ⟨list, hwithin, hadds, hends⟩ :=
        @Statement.exists_ending statement h (front ++ (before ++ [(some '(', '(')])) behind
          (by simp [hsplit])
      exact ⟨list, hwithin.trans ⟨before ++ [(some '(', '(')], [], by simp⟩, hadds, hends⟩
    · rw [hclosed hlist, hclosed hlist']
      exact ⟨list, ⟨before ++ [(some '(', '(')], (some ')', ')') :: after, by simp⟩,
        @Sound.addsBlanks [] list ((some ')', ')') :: after) hbehind.toSound
          (List.cons_ne_nil _ _), rfl, rfl⟩

/-- The keys anywhere in a statement are the same in both spellings. -/
theorem salvageKeys_padded (h : Spaced statement) (start : Draft) :
    salvageKeys (tight statement) start = salvageKeys (wide statement) start := by
  refine salvageKeys_congr start ?_ ?_
  · exact (findAll_paired h.toSound Grammar.prospect?_primaryKeyAnywhere rfl).imp fun _ _ =>
      h.columns_eq .primaryKeyAnywhere
  · exact (findAll_paired h.toSound Grammar.prospect?_foreignKeyAnywhere rfl).imp fun _ _ hpaired =>
      ⟨h.columns_eq .foreignKeyAnywhere hpaired,
        h.refersAlike .foreignKeyAnywhere Grammar.notesWord_foreignKeyAnywhere hpaired⟩

/-- **A table is read permissively alike in both spellings.** -/
theorem salvageTable_padded (h : Padded.Statement statement) :
    (salvageTable (tight statement)).map Salvage.definition
      = (salvageTable (wide statement)).map Salvage.definition := by
  have hheader := find?_paired h.toSound Grammar.prospect?_looseTable rfl
  rw [map_definition_salvageTable, map_definition_salvageTable]
  generalize Grammar.looseTable.find? (tight statement) = header,
    Grammar.looseTable.find? (wide statement) = header' at hheader ⊢
  cases hheader with
  | none => rfl
  | @some header header' hpaired =>
      have hname := hpaired.text_eq h.toSound Grammar.notesWord_looseTable
      obtain ⟨near, far, hpairedAt⟩ := hpaired
      obtain ⟨covered, rest, rfl, hlast⟩ := hpairedAt.last
      obtain ⟨list, hwithin, hadds, hlist, hlist'⟩ :=
        @Statement.exists_looseList statement h (near ++ covered) rest
          (by simp [hpairedAt.first.split])
      have hspaced : Spaced list := h.toSpaced.of_within
        (hwithin.trans ⟨near ++ covered, [], by simp [hpairedAt.first.split]⟩)
      have hrest : header.rest = tight rest := hlast.rest
      have hrest' : header'.rest = wide rest := hlast.rest'
      rw [Option.map_some, Option.map_some, hrest, hrest', hlist, hlist', hname,
        salvageKeys_padded h.toSpaced,
        foldl_salvagePart_congr (forall₂_partAlike_parts hspaced hadds) _ [] []]

/-- **A statement declares the same table in both spellings.** -/
theorem definition?_padded (h : Padded.Statement statement) :
    definition? (tight statement) = definition? (wide statement) :=
  definition?_congr (readTable_padded h.toSpaced) (salvageTable_padded h)

end

end Diagrams
