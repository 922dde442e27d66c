/-
Written changes that add a key to a table.

The head of such a change is read up to the name of the table, and everything behind it is searched
for keys that are added, once for each kind.  The search for the kind that was written finds the key
with its lists; the search for the other kind finds nothing, since the word that it begins with
stands in front of the key only, and there the other words follow.  So a change right after its
table leaves the table as if it had been made with the key (`changeTable_added`).
-/
import Diagrams.Proofs.Graph
import Diagrams.Proofs.Schema.Effect
import Diagrams.Proofs.Schema.FoundKeys

namespace Diagrams.Schema.Written

open Pattern

variable {place : Place Slot} {next : Continuation Slot} {found : Place Slot}

/-- The change that adds the key to a table, without its semicolon. -/
def Key.added (key : Key) (table : Name) : Text :=
  spaced ["ALTER", "TABLE"] ++ (table.text ++ ' ' :: (spaced ["ADD"] ++ key.text))

/-! ### What scans see -/

theorem Key.solid_added (key : Key) (table : Name) : Solid (key.added table) := by
  have hword : isLetters "ALTER" = true := by decide
  have hchange := (solid_letters hword).append
    (' ' :: (spaced ["TABLE"] ++ (table.text ++ ' ' :: spaced ["ADD"]))) key.solid
  simpa only [Key.added, spaced, List.append_assoc, List.cons_append, List.nil_append] using hchange

theorem Key.allWritten_added {key : Key} (h : key.WellFormed) {table : Name}
    (htable : isIdentifier table.name = true) : AllWritten (key.added table) := by
  have hname : AllWritten table.text := Name.isWritten htable
  exact (AllWritten.spaced (by decide)).append (hname.append (.cons (by decide)
    ((AllWritten.spaced (by decide)).append (Key.allWritten h))))

/-! ### The head of a change -/

/-- A name that is not taken for the word in front of the name of a changed table. -/
def Name.IsPlain (written : Name) : Prop :=
  isIdentifier written.name = true ∧ written.name.capitals ≠ "ONLY".toList

instance (written : Name) : Decidable written.IsPlain :=
  inferInstanceAs (Decidable (isIdentifier written.name = true ∧
    written.name.capitals ≠ "ONLY".toList))

theorem not_mem_reached_only {table : Name} {rest : Text} (h : table.IsPlain)
    (hplace : place.rest = table.text ++ ' ' :: rest) (mid : Place Slot) :
    ¬ mid ∈ (Grammar.leading ["ONLY"]).reached place := by
  intro hmid
  obtain ⟨_, rest', hrest', hphrase, -⟩ := mem_reached_leading.mp hmid
  obtain ⟨text, blanks, hspells, hne, hblank, rfl⟩ := phrase_singleton_iff.mp hphrase
  rw [hplace, List.append_assoc] at hrest'
  exact h.2 (Name.capitals_of_spells h.1 hrest' hspells (by decide) (by decide)
    (head?_blanks hne hblank) (forall_head?_cons (by decide) rest))

/-- The head of a change is read up to what it changes. -/
theorem run_alterTable {table : Name} {rest : Text} (h : table.IsPlain)
    (hplace : place.rest = spaced ["ALTER", "TABLE"] ++ (table.text ++ ' ' :: rest))
    (hrest : ∀ c ∈ rest.head?, isBlank c = false)
    (hnext : next
      (((place.past (spaced ["ALTER", "TABLE"] ++ (table.text ++ ' ' :: rest)) []).marked
        .name table.name (table.quotes.closing ++ ' ' :: rest)).marked .options rest [])
        = some found) :
    Grammar.alterTable.run place next = some found := by
  have hname := Name.head?_text h.1 (' ' :: rest)
  unfold Grammar.alterTable
  rw [run_all_cons, run_spaces_of_stop, run_all_cons]
  · refine run_leading (phrase_spaced _) (by decide) hplace hname ?_
    rw [run_all_cons, run_opt_of_none (run_eq_none (not_mem_reached_only h rfl)), run_all_cons]
    refine run_identifier_text h.1 rfl (forall_head?_cons (by decide) _) ?_
    rw [run_all_cons]
    refine run_gap_space rfl hrest ?_
    rw [run_all_cons, run_noted]
    refine run_many_greedy (List.append_nil _).symm (fun _ _ => rfl) (by simp) ?_
    rw [Place.note_past _ (List.append_nil _).symm, run_all_cons,
      run_finish_of_nil rfl, run_all_nil]
    simpa using hnext
  · rw [hplace]
    exact (phrase_spaced _).head? (by decide) hname

/-- A written change is matched with the name of its table and all that stands behind it. -/
theorem matchStart?_alterTable_added (key : Key) {table : Name} (h : table.IsPlain) :
    ∃ found, Grammar.alterTable.matchStart? (key.added table ++ [';']) = some found ∧
      found.text .name = table.name ∧
      found.text .options = spaced ["ADD"] ++ (key.text ++ [';']) := by
  have htext : key.added table ++ [';'] = spaced ["ALTER", "TABLE"] ++
      (table.text ++ ' ' :: (spaced ["ADD"] ++ (key.text ++ [';']))) := by
    simp only [Key.added, spaced, List.append_assoc, List.cons_append, List.nil_append]
  have hrun : Grammar.alterTable.run (.start (key.added table ++ [';'])) some = some _ :=
    run_alterTable h htext (forall_head?_cons (by decide) _) rfl
  refine ⟨_, by rw [matchStart?, matchAt?, hrun]; rfl, ?_, ?_⟩
  all_goals simp [Match.text]

/-! ### The start of an added key -/

variable {word : String} {rest : Text}

/-- Behind the word for adding, a key is not taken for the name of a constraint. -/
theorem run_addConstraint (hword : isLetters word = true)
    (hdiffer : agree word "CONSTRAINT" = false)
    (h : place.rest = spaced ["ADD"] ++ (word.toList ++ rest))
    (hnext : next (place.past (spaced ["ADD"]) (word.toList ++ rest)) = some found) :
    Grammar.addConstraint.run place next = some found := by
  unfold Grammar.addConstraint
  rw [run_all_cons]
  refine run_leading (phrase_spaced _) (by decide) h (head?_letters hword rest) ?_
  rw [run_all_cons, run_opt_of_none (run_eq_none fun mid hmid => ?_), run_all_nil, hnext]
  obtain ⟨_, hleading, -⟩ := mem_reached_all_cons.mp hmid
  exact not_mem_reached_leading rfl (spells_self word) (Bool.and_eq_true_iff.mp hword).2 (by decide)
    hdiffer _ hleading

/-- So the key is all that is left there. -/
theorem rest_of_mem_reached_addConstraint (hword : isLetters word = true)
    (hdiffer : agree word "CONSTRAINT" = false)
    (h : place.rest = spaced ["ADD"] ++ (word.toList ++ rest)) {mid : Place Slot}
    (hmid : mid ∈ Grammar.addConstraint.reached place) : mid.rest = word.toList ++ rest := by
  obtain ⟨here, hleading, hopt⟩ := mem_reached_all_cons.mp hmid
  obtain ⟨_, hkeyword, hgap⟩ := mem_reached_seq.mp
    (show here ∈ (seq (keyword "ADD") gap).reached place from hleading)
  have hadd : place.rest = "ADD".toList ++ ' ' :: (word.toList ++ rest) := h
  obtain rfl := eq_of_mem_reached (fun _ => run_keyword hadd (spells_self "ADD")) hkeyword
  obtain rfl := eq_of_mem_reached_gap rfl (head?_letters hword rest) hgap
  rcases mem_reached_opt.mp hopt with hnamed | rfl
  · obtain ⟨_, hconstraint, -⟩ := mem_reached_all_cons.mp hnamed
    exact absurd hconstraint (not_mem_reached_leading rfl (spells_self word)
      (Bool.and_eq_true_iff.mp hword).2 (by decide) hdiffer _)
  · rfl

theorem beginsWith_add (p : Pattern Slot) : BeginsWith "ADD" (seq Grammar.addConstraint p) :=
  (BeginsWith.leading (by decide) : BeginsWith "ADD" Grammar.addConstraint).seq

/-- Behind the first letter of the word for adding, no pattern for adding starts up to the key. -/
theorem skips_behind_add {p : Pattern Slot} (hp : BeginsWith "ADD" p) (key : Text) :
    p.Skips ['D', 'D', ' '] key := by
  have hletters : p.Skips "DD".toList ([' '] ++ key) :=
    hp.skips_of_tails (isWordChar_of_isLetters (by decide)) (forall_head?_cons (by decide) _)
      (by decide)
  exact hletters.append hp.skips_space

/-- No added key of one kind starts at the words for adding one of the other kind. -/
theorem skips_add {other : String} {ps : List (Pattern Slot)} (hword : isLetters word = true)
    (hother : isLetters other = true) (hdiffer : agree word "CONSTRAINT" = false)
    (hkinds : agree word other = false) :
    (seq Grammar.addConstraint (all (Grammar.phrase [other, "KEY"] :: ps))).Skips (spaced ["ADD"])
      (word.toList ++ rest) := by
  refine Skips.cons (fun place hplace => matchAt?_eq_none_iff.mpr fun mid hmid => ?_)
    (skips_behind_add (beginsWith_add _) _)
  obtain ⟨here, hadd, hkey⟩ := mem_reached_seq.mp hmid
  obtain ⟨_, hphrase, -⟩ := mem_reached_all_cons.mp hkey
  exact not_mem_reached_phrase (rest_of_mem_reached_addConstraint hword hdiffer hplace hadd)
    (Bool.and_eq_true_iff.mp hword).2 (Bool.and_eq_true_iff.mp hother).2 hkinds _ hphrase

/-- The word for adding does not stand in a written key. -/
theorem skips_key {p : Pattern Slot} (hp : BeginsWith "ADD" p) {key : Key} (h : key.WellFormed) :
    p.Skips key.text rest := by
  cases key with
  | primary columns =>
      exact (hp.skips_spaced (by decide) (by decide)).append (hp.skips_bracketed h.names)
  | foreign columns target targetColumns =>
      obtain ⟨hcolumns, htarget, htargetColumns⟩ := h
      have hname : p.Skips target.text (bracketed (nameList targetColumns) ++ rest) := by
        refine hp.skips_name htarget fun c hc => ?_
        obtain rfl : '(' = c := by simpa [bracketed] using hc
        decide
      have htail := hname.append (hp.skips_bracketed htargetColumns.names)
      have hword : p.Skips (spaced ["REFERENCES"])
          (target.text ++ bracketed (nameList targetColumns) ++ rest) :=
        hp.skips_spaced (by decide) (by decide)
      have hreferences := hword.append htail
      exact (hp.skips_spaced (by decide) (by decide)).append
        ((hp.skips_bracketed hcolumns.names).append (hp.skips_space.append hreferences))

/-! ### What the searches find -/

theorem skips_semicolon {word : String} {p : Pattern Slot} (hp : BeginsWith word p) :
    p.Skips [';'] [] :=
  hp.skips_of_not_word (List.forall_mem_singleton.mpr (by decide))

/-- What is read off a key is read off the key with the word for adding it in front. -/
theorem finds_added {α : Type} {read : Match Slot → α} {p : Pattern Slot} {text behind : Text}
    {value : α} (hword : isLetters word = true) (hdiffer : agree word "CONSTRAINT" = false)
    (htext : text = word.toList ++ behind)
    (h : ∀ place : Place Slot, place.rest = text ++ rest → ∃ last, p.run place some = some last ∧
      last.offset = place.offset + text.length ∧ ∀ first, read ⟨first, last⟩ = value) :
    (seq Grammar.addConstraint p).Finds read (spaced ["ADD"] ++ text) rest [value] := by
  refine Finds.of_run (by simp [spaced]) fun place hplace => ?_
  rw [htext, List.append_assoc, List.append_assoc] at hplace
  obtain ⟨last, hrun, hoffset, hread⟩ :=
    h (place.past (spaced ["ADD"]) (word.toList ++ (behind ++ rest))) (by simp [htext])
  have hadded : (seq Grammar.addConstraint p).run place some = some last :=
    run_addConstraint hword hdiffer hplace hrun
  refine ⟨last, hadded, ?_, hread place⟩
  rw [hoffset, Place.offset_past, List.length_append, Nat.add_assoc]

/-- An added key is found by the search for primary keys with its list, if it is one. -/
theorem finds_added_primary {key : Key} (h : key.WellFormed) :
    Grammar.addPrimaryKey.Finds foundColumns (spaced ["ADD"] ++ key.text) rest
      key.primaryLists := by
  cases key with
  | primary columns =>
      rw [Key.text_primary]
      refine finds_added (by decide) (by decide) rfl fun place hplace => ?_
      have hrun : Grammar.primaryKeyAnywhere.run place some = some _ :=
        run_primaryKeyAnywhere (spells_self "PRIMARY") (spells_self "KEY") forall_blank_space
          (nameList_ne_nil h) (ne_bracket_of_nameList h) hplace rfl
      exact ⟨_, hrun, rfl, fun first => by simp [foundColumns, Match.text]⟩
  | foreign columns target targetColumns =>
      have hadd : Grammar.addPrimaryKey.Skips (spaced ["ADD"])
          ((Key.foreign columns target targetColumns).text ++ rest) := by
        rw [Key.text_foreign, List.append_assoc]
        exact skips_add (by decide) (by decide) (by decide) (by decide)
      exact (hadd.append (skips_key (beginsWith_add _) h)).finds

/-- An added key is found by the search for foreign keys with its lists, if it is one. -/
theorem finds_added_foreign {key : Key} (h : key.WellFormed) :
    Grammar.addForeignKey.Finds foundReference (spaced ["ADD"] ++ key.text) rest
      key.foreignTexts := by
  cases key with
  | primary columns =>
      have hadd : Grammar.addForeignKey.Skips (spaced ["ADD"])
          ((Key.primary columns).text ++ rest) := by
        rw [Key.text_primary, List.append_assoc]
        exact skips_add (by decide) (by decide) (by decide) (by decide)
      exact (hadd.append (skips_key (beginsWith_add _) h)).finds
  | foreign columns target targetColumns =>
      have hwords := Key.text_foreign columns targetColumns target
      refine finds_added (by decide) (by decide) hwords fun place hplace => ?_
      have hrun : Grammar.foreignKeyAnywhere.run place some = some _ :=
        run_foreignKeyAnywhere h hplace rfl
      exact ⟨_, hrun, rfl, fun first => by simp [foundReference, Match.text]⟩

/-- The names that an added key adds to the primary key. -/
theorem addedPrimaryKeys_added {key : Key} (h : key.WellFormed) :
    addedPrimaryKeys (spaced ["ADD"] ++ (key.text ++ [';'])) = primaryNames [key] := by
  have hfinds := (finds_added_primary h).append (skips_semicolon (beginsWith_add _)).finds
  have hlists := hfinds.map_findAll
  rw [List.append_assoc, List.append_nil] at hlists
  have hnames : addedPrimaryKeys (spaced ["ADD"] ++ (key.text ++ [';']))
      = key.primaryLists.flatMap identifierList := by
    rw [← hlists, List.flatMap_map]
    rfl
  rw [hnames, Key.flatMap_primaryLists h]
  simp [primaryNames]

/-- The foreign keys that an added key declares. -/
theorem addedForeignKeys_added {key : Key} (h : key.WellFormed) (table : Text) :
    addedForeignKeys table (spaced ["ADD"] ++ (key.text ++ [';'])) = key.references table := by
  have hfinds := (finds_added_foreign h).append (skips_semicolon (beginsWith_add _)).finds
  have htexts := hfinds.map_findAll
  rw [List.append_assoc, List.append_nil] at htexts
  rw [← Key.flatMap_foreignTexts h table, ← htexts, List.flatMap_map]
  rfl

/-! ### What a change does -/

/-- **A key that is added right after its table is a key of the table**: the table is then as if it
had been made with the key. -/
theorem readStatement_added {key : Key} (h : key.WellFormed) {table : Name} (htable : table.IsPlain)
    {progress : Progress} {diagram : Er.Diagram} {made : Er.Entity}
    (hdiagram : progress.diagram = diagram.insert made) (hmade : made.name = table.name) :
    progress.readStatement (key.added table ++ [';']) = { progress with
      diagram := diagram.insert (made.applyKeys (primaryNames [key]) (key.references table.name))
      pending := progress.pending ++ key.references table.name } := by
  obtain ⟨found, hfound, hname, hoptions⟩ := matchStart?_alterTable_added key htable
  have hbare : stripComments (key.added table ++ [';']) = key.added table ++ [';'] :=
    stripComments_semicolon (Key.allWritten_added h htable.1)
  have hlookup : progress.diagram.lookup? table.name = some diagram.nextNode := by
    rw [hdiagram, ← hmade]
    exact Graph.lookup?_insert_self diagram made
  have hnamed : progress.diagram.nameOf diagram.nextNode = table.name := by
    rw [hdiagram, ← hmade]
    exact Graph.nameOf_insert_self diagram made
  have hkeyed : progress.diagram.modify diagram.nextNode
      (·.applyKeys (primaryNames [key]) (key.references table.name))
        = diagram.insert (made.applyKeys (primaryNames [key]) (key.references table.name)) := by
    rw [hdiagram]
    exact Graph.modify_insert diagram made (Er.Entity.name_applyKeys _ _ _)
  unfold Progress.readStatement
  dsimp only
  rw [hbare, hfound]
  dsimp only
  rw [hname, hoptions, Progress.changeTable, hlookup]
  dsimp only
  rw [hnamed]
  show { progress with
    diagram := progress.diagram.modify diagram.nextNode
      (·.applyKeys (addedPrimaryKeys _) (addedForeignKeys table.name _))
    pending := progress.pending ++ addedForeignKeys table.name _ } = _
  rw [addedPrimaryKeys_added h, addedForeignKeys_added h, hkeyed]

end Diagrams.Schema.Written
