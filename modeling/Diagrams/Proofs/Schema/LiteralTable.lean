/-
Literals in the options of a column.

`InOptions` says of the text in front of a literal that it begins the definition of a table and
leads up to the options of one of its columns.  Then the table that is read, strictly or
permissively, does not depend on what stands in the literal, as long as it is inert: the list ends
at the same bracket and has the same parts but for one, which says the same.
-/
import Diagrams.Proofs.Schema.Literal

namespace Diagrams.Schema

open Pattern

/-- A quote behind `head`, an opening bracket and `list` stands in the options of a column: the head
is that of a table, the list is open, no quotes are, and neither a list of key columns nor the
arguments of the type of the column. -/
structure InOptions (head list : Text) : Prop where
  table : ((all [spaces, Grammar.looseTable]).matchStart? (head ++ ['('])).isSome = true
  bracket : '(' ∉ head
  unclosed : Brackets.round.closing? ('(' :: list) 0 = none
  brackets : (('(' :: list).foldl (Quoting.step Brackets.isQuote) {}).Ready
  parts : (list.foldl ListScan.step {}).quoting.Ready
  lists : ListsClosed (head ++ '(' :: list)
  type : TypeClosed (begunPart list)

variable {head list text text' rest tail : Text}

/-! ### The head -/

/-- The parts of a strict head in front of its bracket. -/
def headParts : List (Pattern Slot) :=
  [spaces, Grammar.leading ["CREATE"],
    opt (all [opt (oneOf [Grammar.leading ["GLOBAL"], Grammar.leading ["LOCAL"]]),
      keyword "TEMP", opt (keyword "ORARY"), gap]),
    Grammar.leading ["TABLE"], Grammar.ifNotExists, Grammar.identifier .name, spaces]

theorem createTable_eq : Grammar.createTable = all (headParts ++ [lit '(']) := rfl

theorem halts_headParts : (all headParts).halts (some '(') true = true := by decide

/-- A strict head ends at the first bracket. -/
theorem rest_createTable {header : Match Slot} (hbracket : '(' ∉ head)
    (h : Grammar.createTable.matchStart? (head ++ '(' :: tail) = some header) :
    header.rest = tail := by
  obtain ⟨-, hlast⟩ := mem_reached_of_matchStart? h
  rw [createTable_eq, reached_all_append] at hlast
  obtain ⟨mid, hmid, hlit⟩ := List.mem_flatMap.mp hlast
  obtain ⟨covered, hcovered, -, hfree⟩ := (coversOnly_of_halts halts_headParts).covers hmid
  obtain ⟨after, hafter, hend⟩ := mem_reached_lit.mp hlit
  have hnone : '(' ∉ covered := fun hmem => by simpa using hfree '(' hmem
  rw [hafter] at hcovered
  have htail := (append_cons_inj_of_not_mem hbracket hnone hcovered).2
  rw [Match.rest, hend, htail]
  rfl

/-- The permissive head is found in front of the first bracket. -/
theorem InOptions.exists_looseTable (h : InOptions head list) :
    ∃ name space, '(' ∉ space ∧ ∀ tail, ∃ header,
      Grammar.looseTable.find? (head ++ '(' :: tail) = some header ∧
      header.text .name = name ∧ header.rest = space ++ '(' :: tail := by
  have hfound : (Grammar.looseTable.find? (head ++ ['('])).isSome = true := by
    obtain ⟨last, hlast⟩ := matchStart?_isSome_iff.mp h.table
    obtain ⟨_, hspaces, hloose⟩ := mem_reached_all_cons.mp hlast
    obtain ⟨blanks, after, hafter, -, rfl⟩ := mem_reached_many.mp hspaces
    exact findFrom?_isSome_iff.mpr ⟨blanks, after, hafter, last, hloose⟩
  obtain ⟨found, hfound⟩ := Option.isSome_iff_exists.mp hfound
  have hnone : ∀ before offset, Grammar.looseTable.findFrom? before offset ['('] = none :=
    fun _ _ => rfl
  have hsame : ∀ tail, ∃ header space,
      Grammar.looseTable.find? (head ++ '(' :: tail) = some header ∧
      header.text .name = found.text .name ∧ header.rest = space ++ '(' :: tail ∧
      found.rest = space ++ ['('] ∧ '(' ∉ space := by
    intro tail
    have hkeeps : Grammar.looseTable.Keeps (.same head '(' (by decide) [] tail true) :=
      keeps_same (by decide)
    obtain ⟨header, after, hheader, hsuffix, htwins⟩ :=
      hkeeps.exists_findFrom? rfl (List.suffix_refl head) hnone hfound
    obtain ⟨covered, space, hsplit, hrest, hrest', -⟩ := htwins.covered
    refine ⟨header, space, hheader, (htwins.alike.text .name).symm, hrest', hrest, fun hmem => ?_⟩
    exact h.bracket (hsuffix.mem (hsplit ▸ List.mem_append_right covered hmem))
  obtain ⟨-, space, -, -, -, hspace, hfree⟩ := hsame []
  refine ⟨found.text .name, space, hfree, fun tail => ?_⟩
  obtain ⟨header, space', hheader, hname, hrest, hspace', -⟩ := hsame tail
  rw [hspace] at hspace'
  obtain rfl := List.append_cancel_right hspace'
  exact ⟨header, hheader, hname, hrest⟩

/-- The statement changes no table. -/
theorem InOptions.matchStart?_alterTable (h : InOptions head list) (tail : Text) :
    Grammar.alterTable.matchStart? (head ++ '(' :: tail) = none := by
  obtain ⟨last, hlast⟩ := matchStart?_isSome_iff.mp h.table
  obtain ⟨_, hspaces, hlast⟩ := mem_reached_all_cons.mp hlast
  obtain ⟨blanks, after, hafter, hblanks, rfl⟩ := mem_reached_many.mp hspaces
  obtain ⟨_, hloose, -⟩ := mem_reached_all_cons.mp hlast
  obtain ⟨_, hcreate, -⟩ := mem_reached_all_cons.mp hloose
  obtain ⟨front, after', hafter', hphrase, -⟩ := mem_reached_leading.mp hcreate
  obtain ⟨word, gap, hspells, -, -, rfl⟩ := phrase_singleton_iff.mp hphrase
  have htext : head ++ '(' :: tail = blanks ++ (word ++ (gap ++ (after' ++ tail))) := by
    rw [Place.rest_past] at hafter'
    rw [Place.rest_start, hafter'] at hafter
    rw [← List.singleton_append, ← List.append_assoc, hafter]
    simp
  have hword : ∀ c ∈ (word ++ (gap ++ (after' ++ tail))).head?, isBlank c = false := fun c hc =>
    isBlank_of_isWordChar (head?_spells hspells (by decide) c hc)
  refine matchStart?_eq_none_iff.mpr fun mid hmid => ?_
  obtain ⟨_, hspaces', hmid⟩ := mem_reached_all_cons.mp hmid
  obtain ⟨blanks', behind, hbehind, hblanks', rfl⟩ := mem_reached_many.mp hspaces'
  obtain ⟨_, halter, -⟩ := mem_reached_all_cons.mp hmid
  obtain ⟨front', after'', hafter'', hphrase', -⟩ := mem_reached_leading.mp halter
  have hstop : ∀ c ∈ behind.head?, isBlank c = false := by
    rw [Place.rest_past] at hafter''
    cases hphrase' with
    | cons hspells' =>
        intro c hc
        rw [hafter'', List.append_assoc] at hc
        exact isBlank_of_isWordChar (head?_spells hspells' (by decide) c hc)
  -- Both patterns read their first word behind the same blanks.
  have hsame : behind = word ++ (gap ++ (after' ++ tail)) := by
    rw [← dropWhile_append_of_stop hblanks' hstop,
      ← dropWhile_append_of_stop hblanks hword, ← htext]
    exact congrArg _ hbehind.symm
  exact not_mem_reached_leading hsame hspells (by decide) (by decide) (by decide) _ halter

/-! ### The two readings -/

/-- **A table is read strictly alike, whatever stands in an inert literal.** -/
theorem readTable_literal (h : InOptions head list) (hx : Quotable text) (hy : Quotable text')
    (hinert : Inert text) (hinert' : Inert text') (rest : Text) :
    (readTable (head ++ '(' :: (list ++ (literal text ++ rest)))).toOption
      = (readTable (head ++ '(' :: (list ++ (literal text' ++ rest)))).toOption := by
  have hfront : ∀ tail, head ++ '(' :: (list ++ tail) = (head ++ '(' :: list) ++ tail :=
    fun tail => by simp
  have hheader := matchStart?_literal text text' rest
    (keeps_same (by decide) : Grammar.createTable.Keeps _) (List.suffix_refl (head ++ '(' :: list))
  rw [← hfront, ← hfront] at hheader
  unfold readTable
  cases hfound : Grammar.createTable.matchStart?
    (head ++ '(' :: (list ++ (literal text ++ rest))) with
  | none =>
      cases hfound' : Grammar.createTable.matchStart?
        (head ++ '(' :: (list ++ (literal text' ++ rest))) with
      | none => rfl
      | some header' =>
          rw [hfound, hfound'] at hheader
          cases hheader
  | some header =>
      cases hfound' : Grammar.createTable.matchStart?
        (head ++ '(' :: (list ++ (literal text' ++ rest))) with
      | none =>
          rw [hfound, hfound'] at hheader
          cases hheader
      | some header' =>
          rw [hfound, hfound'] at hheader
          have hname : header.text .name = header'.text .name := by
            cases hheader with
            | some htwins => exact htwins.alike.text .name
          obtain ⟨body, hbody⟩ := Brackets.exists_body?_literal h.unclosed h.brackets rest
          dsimp only
          rw [rest_createTable h.bracket hfound, rest_createTable h.bracket hfound', hbody text hx,
            hbody text' hy, hname]
          cases body with
          | none => rfl
          | some body =>
              obtain ⟨before, ending, after, hparts⟩ := exists_parts_literal h.parts body.1
              have hbegun : begunPart list <:+ head ++ '(' :: list :=
                (begunPart_suffix list).trans ⟨head ++ ['('], by simp⟩
              have hread := foldlM_readPart_congr (forall₂_partAlike
                (partAlike_literal h.lists hbegun h.type (head?_begunPart list) hinert
                  hinert' ending)
                before after) { table := header'.text .name }
              simp only [Option.map_some, hparts text hx, hparts text' hy]
              rw [toOption_map, toOption_map, hread]

theorem salvageKeys_literal {front : Text} (hclosed : ListsClosed front) (hx : Inert text)
    (hy : Inert text') (start : Draft) (rest : Text) :
    salvageKeys (front ++ (literal text ++ rest)) start
      = salvageKeys (front ++ (literal text' ++ rest)) start := by
  have hprimary := @findAll_literal front front text text' rest _ hx hy
    (Grammar.keeps_primaryKeyAnywhere hclosed) (by decide)
    .primaryKeyAnywhere (List.suffix_refl front)
  have hforeign := @findAll_literal front front text text' rest _ hx hy
    (Grammar.keeps_foreignKeyAnywhere hclosed) (by decide)
    .foreignKeyAnywhere (List.suffix_refl front)
  have hcolumns : ∀ {found found' : Match Slot}, Alike found found' →
      identifierList (found.text .columns)
        = identifierList (found'.text .columns) := fun halike => by
    rw [halike.text .columns]
  exact salvageKeys_congr start (hprimary.imp fun _ _ => hcolumns)
    (hforeign.imp fun _ _ halike => ⟨hcolumns halike, refersAlike_of_alike halike⟩)

/-- **A table is read permissively alike, whatever stands in an inert literal.** -/
theorem salvageTable_literal (h : InOptions head list) (hx : Quotable text) (hy : Quotable text')
    (hinert : Inert text) (hinert' : Inert text') (rest : Text) :
    (salvageTable (head ++ '(' :: (list ++ (literal text ++ rest)))).map Salvage.definition
      = (salvageTable (head ++ '(' :: (list ++ (literal text' ++ rest)))).map
        Salvage.definition := by
  have hfront : ∀ tail, head ++ '(' :: (list ++ tail) = (head ++ '(' :: list) ++ tail :=
    fun tail => by simp
  obtain ⟨name, space, hspace, hfind⟩ := h.exists_looseTable
  obtain ⟨header, hheader, hname, hrest⟩ := hfind (list ++ (literal text ++ rest))
  obtain ⟨header', hheader', hname', hrest'⟩ := hfind (list ++ (literal text' ++ rest))
  obtain ⟨ending, hlist⟩ := exists_looseList_literal hspace h.unclosed h.brackets rest
  obtain ⟨before, ending', after, hparts⟩ := exists_parts_literal h.parts ending
  have hbegun : begunPart list <:+ head ++ '(' :: list :=
    (begunPart_suffix list).trans ⟨head ++ ['('], by simp⟩
  have hkeys := salvageKeys_literal h.lists hinert hinert' { table := name } rest
  rw [← hfront, ← hfront] at hkeys
  have hread := foldl_salvagePart_congr (forall₂_partAlike
    (partAlike_literal h.lists hbegun h.type (head?_begunPart list) hinert hinert' ending')
      before after)
    (salvageKeys (head ++ '(' :: (list ++ (literal text ++ rest))) { table := name }) [] []
  rw [map_definition_salvageTable, map_definition_salvageTable, hheader, hheader', Option.map_some,
    Option.map_some, hname, hname', hrest, hrest', hlist text hx, hlist text' hy, hparts text hx,
    hparts text' hy, hread, hkeys]

/-- **The table that a statement declares does not depend on an inert literal in the options.** -/
theorem definition?_literal (h : InOptions head list) (hx : Quotable text) (hy : Quotable text')
    (hinert : Inert text) (hinert' : Inert text') (rest : Text) :
    definition? (head ++ '(' :: (list ++ (literal text ++ rest)))
      = definition? (head ++ '(' :: (list ++ (literal text' ++ rest))) :=
  definition?_congr (readTable_literal h hx hy hinert hinert' rest)
    (salvageTable_literal h hx hy hinert hinert' rest)

end Diagrams.Schema
