/-
What a script says without the statements that are skipped.

A statement declares a table, or changes a table that is there, or is skipped, and `fate` tells
which from the statement and the tables in front of it.  A skipped statement is counted and noted,
and leaves the tables and the waiting foreign keys as they are.  So the reading of a script and the
reading of what is kept of it have the same tables at every kept statement, and every kept
statement has the same fate in both.

Statements are kept in the form in which the script has them, trimmed and ended, and in this form a
script falls into them again.
-/
import Diagrams.Proofs.Schema.Appended
import Diagrams.Proofs.Schema.Script

namespace Diagrams.Schema

/-! ### What becomes of a statement -/

/-- What becomes of a statement. -/
inductive Fate
  /-- It declares a table. -/
  | declares
  /-- It changes a table that is there. -/
  | changes
  /-- It is skipped: no table can be read from it, or it would change a table that is not there. -/
  | skipped
  deriving DecidableEq

namespace Progress

/-- What becomes of a statement after what was read. -/
def fate (progress : Progress) (statement : Text) : Fate :=
  match change? statement with
  | some (table, _) => if (progress.diagram.lookup? table).isSome then .changes else .skipped
  | none => if (definition? (stripComments statement)).isSome then .declares else .skipped

/-- What becomes of statements that are read one after the other. -/
def fates (progress : Progress) : List Text → List (Text × Fate)
  | [] => []
  | statement :: others =>
    (statement, progress.fate statement) :: (progress.readStatement statement).fates others

variable {progress other : Progress} {statement : Text}

theorem fate_of_declared {definition : Definition} (h : declared? statement = some definition) :
    progress.fate statement = .declares := by
  unfold declared? at h
  unfold fate
  cases hchange : change? statement with
  | none =>
      rw [hchange] at h
      simp only at h ⊢
      rw [h]
      rfl
  | some change =>
      rw [hchange] at h
      exact absurd h.symm (Option.some_ne_none definition)

theorem fate_of_change {table changes : Text} {node : Nat}
    (hchange : change? statement = some (table, changes))
    (hknown : progress.diagram.lookup? table = some node) : progress.fate statement = .changes := by
  unfold fate
  rw [hchange]
  simp only
  rw [hknown]
  rfl

theorem fate_of_nothing (hdeclared : declared? statement = none)
    (hunknown : ∀ table changes, change? statement = some (table, changes) →
      progress.diagram.lookup? table = none) : progress.fate statement = .skipped := by
  unfold fate
  cases hchange : change? statement with
  | none =>
      have hnone := declared?_of_no_change hchange
      rw [hdeclared] at hnone
      simp only
      rw [← hnone]
      rfl
  | some change =>
      obtain ⟨table, changes⟩ := change
      simp only
      rw [hunknown table changes hchange]
      rfl

/-! ### What a statement leaves behind -/

theorem skipped_foldl_report {α : Type} (event : α → Event) (items : List α) (progress : Progress) :
    (items.foldl (fun p item => p.report (event item)) progress).skipped = progress.skipped := by
  induction items generalizing progress with
  | nil => rfl
  | cons item items ih => rw [List.foldl_cons, ih]; rfl

theorem skipped_changeTable (progress : Progress) {table changes : Text}
    (h : change? statement = some (table, changes)) :
    (progress.changeTable table changes).skipped
      = progress.skipped + if progress.fate statement = .skipped then 1 else 0 := by
  unfold Progress.changeTable
  split
  case h_1 hlookup =>
    have hunknown : ∀ other otherChanges, change? statement = some (other, otherChanges) →
        progress.diagram.lookup? other = none := by
      intro other otherChanges hother
      obtain ⟨rfl, -⟩ := Prod.mk.inj (Option.some.inj (h.symm.trans hother))
      exact hlookup
    have hdeclared : declared? statement = none := declared?_of_change_eq_some h
    rw [fate_of_nothing hdeclared hunknown]
    rfl
  case h_2 node hlookup =>
    rw [fate_of_change h hlookup]
    rfl

theorem skipped_defineTable (progress : Progress) (h : change? statement = none) :
    (progress.defineTable (stripComments statement)).skipped
      = progress.skipped + if progress.fate statement = .skipped then 1 else 0 := by
  have hdeclared := declared?_of_no_change h
  unfold definition? at hdeclared
  unfold Progress.defineTable
  cases hread : readTable (stripComments statement) with
  | ok definition =>
      rw [hread] at hdeclared
      rw [fate_of_declared hdeclared]
      exact skipped_addTable progress definition
  | error error =>
      rw [hread] at hdeclared
      dsimp only
      cases hsalvage : salvageTable (stripComments statement) with
      | none =>
          rw [hsalvage] at hdeclared
          have hfate : progress.fate statement = .skipped := by
            refine fate_of_nothing hdeclared ?_
            intro table changes hchange
            exact absurd (hchange.symm.trans h) (Option.some_ne_none _)
          rw [hfate]
          rfl
      | some salvage =>
          rw [hsalvage] at hdeclared
          rw [fate_of_declared hdeclared]
          dsimp only
          rw [skipped_addTable, skipped_foldl_report]
          rfl

/-- The statements that are counted as skipped are those with that fate. -/
theorem skipped_readStatement (progress : Progress) (statement : Text) :
    (progress.readStatement statement).skipped
      = progress.skipped + if progress.fate statement = .skipped then 1 else 0 := by
  unfold Progress.readStatement
  dsimp only
  cases hmatch : Grammar.alterTable.matchStart? (stripComments statement) with
  | some found =>
      apply skipped_changeTable
      rw [change?, hmatch]
      rfl
  | none =>
      apply skipped_defineTable
      rw [change?, hmatch]
      rfl

/-- A skipped statement leaves the tables and the waiting keys as they are. -/
theorem readStatement_of_skipped (h : progress.fate statement = .skipped) :
    (progress.readStatement statement).diagram = progress.diagram ∧
      (progress.readStatement statement).pending = progress.pending := by
  cases effect_readStatement progress statement with
  | declare definition declared diagram pending =>
      rw [fate_of_declared declared] at h
      exact absurd h (by decide)
  | change table changes node change known diagram pending =>
      rw [fate_of_change change known] at h
      exact absurd h (by decide)
  | nothing declared unknown diagram pending => exact ⟨diagram, pending⟩

/-- A statement adds a table just where it declares one. -/
theorem length_pool_readStatement (progress : Progress) (statement : Text) :
    (progress.readStatement statement).diagram.pool.length
      = progress.diagram.pool.length + if progress.fate statement = .declares then 1 else 0 := by
  cases effect_readStatement progress statement with
  | declare definition declared diagram pending =>
      rw [diagram, fate_of_declared declared, Graph.pool_insert, List.length_append]
      rfl
  | change table changes node change known diagram pending =>
      rw [diagram, fate_of_change change known]
      exact List.length_modify _ _ _
  | nothing declared unknown diagram pending =>
      rw [diagram, fate_of_nothing declared unknown]
      rfl

/-! ### Two readings with the same tables -/

/-- Two readings have the same tables and the same waiting keys, whatever they have skipped. -/
structure SameTables (progress other : Progress) : Prop where
  diagram : progress.diagram = other.diagram
  pending : progress.pending = other.pending

namespace SameTables

theorem fate_eq (h : SameTables progress other) (statement : Text) :
    progress.fate statement = other.fate statement := by
  unfold fate
  rw [h.diagram]

/-- Statements that declare the same table or make the same change have the same effect. -/
theorem readStatement_congr (h : SameTables progress other) {statement' : Text}
    (hdeclared : declared? statement = declared? statement')
    (hchange : change? statement = change? statement') :
    SameTables (progress.readStatement statement) (other.readStatement statement') := by
  have heffect := effect_readStatement other statement'
  cases effect_readStatement progress statement with
  | declare definition declared diagram pending =>
      obtain ⟨hdiagram, hpending⟩ := heffect.of_declared (hdeclared ▸ declared)
      exact ⟨by rw [diagram, hdiagram, h.diagram], by rw [pending, hpending, h.pending]⟩
  | change table changes node change known diagram pending =>
      obtain ⟨hdiagram, hpending⟩ := heffect.of_change (hchange ▸ change) (h.diagram ▸ known)
      exact ⟨by rw [diagram, hdiagram, h.diagram], by rw [pending, hpending, h.pending, h.diagram]⟩
  | nothing declared unknown diagram pending =>
      obtain ⟨hdiagram, hpending⟩ := heffect.of_nothing (hdeclared ▸ declared)
        (hchange ▸ h.diagram ▸ unknown)
      exact ⟨by rw [diagram, hdiagram, h.diagram], by rw [pending, hpending, h.pending]⟩

theorem readStatement (h : SameTables progress other) (statement : Text) :
    SameTables (progress.readStatement statement) (other.readStatement statement) :=
  h.readStatement_congr rfl rfl

theorem foldl_readStatement (h : SameTables progress other) (statements : List Text) :
    SameTables (statements.foldl Progress.readStatement progress)
      (statements.foldl Progress.readStatement other) := by
  induction statements generalizing progress other with
  | nil => exact h
  | cons statement statements ih => exact ih (h.readStatement statement)

end SameTables

/-! ### Statements after one another -/

/-- The statements that are not skipped. -/
def keptOf (fates : List (Text × Fate)) : List Text :=
  (fates.filter fun told => told.2 ≠ .skipped).map (·.1)

/-- Without the statements that are skipped, the tables are the same, and nothing is skipped. -/
theorem SameTables.foldl_keptOf (h : SameTables progress other) (statements : List Text) :
    SameTables (statements.foldl Progress.readStatement progress)
        ((keptOf (progress.fates statements)).foldl Progress.readStatement other) ∧
      ((keptOf (progress.fates statements)).foldl Progress.readStatement other).skipped
        = other.skipped := by
  induction statements generalizing progress other with
  | nil => exact ⟨h, rfl⟩
  | cons statement statements ih =>
      rw [List.foldl_cons, fates, keptOf]
      by_cases hskipped : progress.fate statement = .skipped
      · rw [List.filter_cons_of_neg (by simpa using hskipped)]
        obtain ⟨hdiagram, hpending⟩ := readStatement_of_skipped hskipped
        exact ih ⟨hdiagram.trans h.diagram, hpending.trans h.pending⟩
      · rw [List.filter_cons_of_pos (by simpa using hskipped), List.map_cons, List.foldl_cons]
        have hother : (other.readStatement statement).skipped = other.skipped := by
          rw [skipped_readStatement, ← h.fate_eq statement, if_neg hskipped, Nat.add_zero]
        obtain ⟨hsame, hcount⟩ := ih (h.readStatement statement)
        exact ⟨hsame, hcount.trans hother⟩

/-- How many statements have a fate. -/
def countOf (fate : Fate) (fates : List (Text × Fate)) : Nat := (fates.map (·.2)).count fate

theorem skipped_foldl_readStatement (progress : Progress) (statements : List Text) :
    (statements.foldl Progress.readStatement progress).skipped
      = progress.skipped + countOf .skipped (progress.fates statements) := by
  induction statements generalizing progress with
  | nil => rfl
  | cons statement statements ih =>
      rw [List.foldl_cons, ih, skipped_readStatement, fates, countOf, countOf, List.map_cons,
        List.count_cons, beq_eq_decide]
      simp only [decide_eq_true_eq]
      omega

theorem length_pool_foldl_readStatement (progress : Progress) (statements : List Text) :
    (statements.foldl Progress.readStatement progress).diagram.pool.length
      = progress.diagram.pool.length + countOf .declares (progress.fates statements) := by
  induction statements generalizing progress with
  | nil => rfl
  | cons statement statements ih =>
      rw [List.foldl_cons, ih, length_pool_readStatement, fates, countOf, countOf, List.map_cons,
        List.count_cons, beq_eq_decide]
      simp only [decide_eq_true_eq]
      omega

/-- Every statement has one of the three fates. -/
theorem length_eq_countOf (progress : Progress) (statements : List Text) :
    statements.length = countOf .declares (progress.fates statements)
      + countOf .changes (progress.fates statements)
      + countOf .skipped (progress.fates statements) := by
  induction statements generalizing progress with
  | nil => rfl
  | cons statement statements ih =>
      have hothers := ih (progress.readStatement statement)
      unfold countOf at hothers ⊢
      rw [fates, List.length_cons, hothers, List.map_cons]
      simp only [List.count_cons]
      cases progress.fate statement <;> simp <;> omega

theorem map_fst_fates (progress : Progress) (statements : List Text) :
    (progress.fates statements).map (·.1) = statements := by
  induction statements generalizing progress with
  | nil => rfl
  | cons statement statements ih => rw [fates, List.map_cons, ih]

theorem sublist_keptOf (progress : Progress) (statements : List Text) :
    (keptOf (progress.fates statements)).Sublist statements := by
  have hsublist := (List.filter_sublist (p := fun told : Text × Fate => told.2 ≠ .skipped)
    (l := progress.fates statements)).map (·.1)
  rwa [map_fst_fates] at hsublist

end Progress

/-! ### Scripts -/

/-- Statements of a script make up a script of these statements. -/
theorem statements_flatten {script : Text} {items : List Text}
    (h : ∀ item ∈ items, item ∈ statements script) : statements items.flatten = items :=
  statements_flatten_iff.mpr fun item hitem => isStatement_of_mem_statements (h item hitem)

/-- Scripts whose statements leave the same tables have the same diagram. -/
theorem diagram_read_congr {script other title : Text}
    (h : Progress.SameTables (readStatements script title) (readStatements other title))
    (grid : Option Er.Grid) :
    (read script title grid).diagram = (read other title grid).diagram := by
  unfold read
  simp only [h.diagram, h.pending]

/-- What becomes of the statements of a script. -/
def fates (script title : Text) : List (Text × Fate) :=
  Progress.fates { diagram := .empty title } (statements script)

/-- A script without the statements that are skipped. -/
def kept (script title : Text) : Text := (Progress.keptOf (fates script title)).flatten

/-- The statements that are skipped leave no trace in the diagram of a script. -/
structure TracelessSkips (script title : Text) (grid : Option Er.Grid) : Prop where
  /-- A statement is counted as skipped if no table can be read from it, or if it would change a
  table that is not there. -/
  counted : ∀ progress statement, (Progress.readStatement progress statement).skipped
    = progress.skipped + if progress.fate statement = .skipped then 1 else 0
  /-- What is kept of the script falls into the statements that were not skipped. -/
  statements : statements (kept script title) = Progress.keptOf (fates script title)
  /-- Nothing of what is kept is skipped. -/
  skipped : (read (kept script title) title grid).skipped = 0
  /-- What is kept has the diagram of the script. -/
  diagram : (read (kept script title) title grid).diagram = (read script title grid).diagram
  /-- Every statement declares a table of the diagram, or changes a table, or was skipped. -/
  total : (Schema.statements script).length
    = (read script title grid).diagram.nodes.length
      + Progress.countOf .changes (fates script title) + (read script title grid).skipped

/-- Every statement declares a table of the diagram, or changes a table, or is skipped. -/
theorem length_statements (script title : Text) (grid : Option Er.Grid) :
    (statements script).length = (read script title grid).diagram.nodes.length
      + Progress.countOf .changes (fates script title) + (read script title grid).skipped := by
  have hnodes : (read script title grid).diagram.nodes.length
      = (readStatements script title).diagram.pool.length := by
    simpa [Er.Diagram.tables] using congrArg List.length (tables_read script title grid)
  have hpool := Progress.length_pool_foldl_readStatement { diagram := .empty title }
    (statements script)
  have hcount := Progress.skipped_foldl_readStatement { diagram := .empty title }
    (statements script)
  have htotal := Progress.length_eq_countOf { diagram := .empty title } (statements script)
  change (readStatements script title).diagram.pool.length
    = 0 + Progress.countOf .declares (fates script title) at hpool
  change (read script title grid).skipped
    = 0 + Progress.countOf .skipped (fates script title) at hcount
  rw [hnodes, hpool, hcount, htotal]
  unfold fates
  omega

/-- **Statements that are skipped leave no trace.** -/
theorem tracelessSkips (script title : Text) (grid : Option Er.Grid) :
    TracelessSkips script title grid := by
  have hkept : ∀ item ∈ Progress.keptOf (fates script title), item ∈ statements script :=
    fun _ hitem => (Progress.sublist_keptOf _ _).subset hitem
  have hstatements : statements (kept script title) = Progress.keptOf (fates script title) :=
    statements_flatten hkept
  have hstart : Progress.SameTables { diagram := .empty title } { diagram := .empty title } :=
    ⟨rfl, rfl⟩
  obtain ⟨⟨hdiagram, hpending⟩, hskipped⟩ := hstart.foldl_keptOf (statements script)
  have hkeptDiagram : (readStatements (kept script title) title).diagram
      = (readStatements script title).diagram := by
    unfold readStatements
    rw [hstatements]
    exact hdiagram.symm
  have hkeptPending : (readStatements (kept script title) title).pending
      = (readStatements script title).pending := by
    unfold readStatements
    rw [hstatements]
    exact hpending.symm
  refine ⟨Progress.skipped_readStatement, hstatements, ?_, ?_, length_statements script title grid⟩
  · show (readStatements (kept script title) title).skipped = 0
    unfold readStatements
    rw [hstatements]
    exact hskipped
  · unfold read
    simp only [hkeptDiagram, hkeptPending]

end Diagrams.Schema
