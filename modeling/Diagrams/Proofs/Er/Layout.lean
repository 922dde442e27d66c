/-
The grid that tables are placed on.

The grid has as many columns as the square root of the count of tables, rounded up, so a square of
that side has room for all tables, and no smaller square has (`Grid.columns_isLeast`).  A table gets
its cell by division with remainder, which tells the cells apart and fills one row after the other.
Placing the tables changes each of them once, if none is shown twice, and nothing else in the
diagram (`Diagram.autoLayout_grid`).
-/
import Mathlib.Algebra.Order.Floor.Semiring
import Mathlib.Analysis.Real.Sqrt
import Mathlib.Order.Bounds.Basic
import Diagrams.Er.Layout
import Diagrams.Proofs.Graph

namespace Diagrams.Graph

variable {ν ε α : Type} {change : α → ν → ν} {node : Nat}

/-- Changing nodes changes nothing but the pool. -/
theorem foldl_modify_eq (graph : Graph ν ε) (changes : List (Nat × α)) :
    changes.foldl (fun changed pair => changed.modify pair.1 (change pair.2)) graph
      = { graph with pool := (changes.foldl (fun changed pair =>
            changed.modify pair.1 (change pair.2)) graph).pool } := by
  induction changes generalizing graph with
  | nil => rfl
  | cons pair changes ih =>
      rw [List.foldl_cons, ih]
      rfl

theorem node?_foldl_modify_of_not_mem (graph : Graph ν ε) {changes : List (Nat × α)}
    (h : node ∉ changes.map Prod.fst) :
    (changes.foldl (fun changed pair => changed.modify pair.1 (change pair.2)) graph).node? node
      = graph.node? node := by
  induction changes generalizing graph with
  | nil => rfl
  | cons pair changes ih =>
      rw [List.map_cons, List.mem_cons, not_or] at h
      rw [List.foldl_cons, ih _ h.2, node?_modify, if_neg (Ne.symm h.1)]

/-- A node that is changed once is changed as it says. -/
theorem node?_foldl_modify_of_mem (graph : Graph ν ε) {changes : List (Nat × α)} {value : α}
    (hdistinct : (changes.map Prod.fst).Nodup) (h : (node, value) ∈ changes) :
    (changes.foldl (fun changed pair => changed.modify pair.1 (change pair.2)) graph).node? node
      = (graph.node? node).map (change value) := by
  induction changes generalizing graph with
  | nil => exact absurd h List.not_mem_nil
  | cons pair changes ih =>
      rw [List.map_cons, List.nodup_cons] at hdistinct
      rw [List.foldl_cons]
      rcases List.mem_cons.mp h with rfl | hlater
      · rw [node?_foldl_modify_of_not_mem _ hdistinct.1, node?_modify, if_pos rfl]
      · have hmem : node ∈ changes.map Prod.fst := List.mem_map.mpr ⟨_, hlater, rfl⟩
        have hne : pair.1 ≠ node := by
          rintro rfl
          exact hdistinct.1 hmem
        rw [ih _ hdistinct.2 hlater, node?_modify, if_neg hne]

end Diagrams.Graph

namespace Diagrams.Er

namespace Grid

/-! ### The columns -/

/-- A grid has the fewest columns with which a square has room for all tables. -/
theorem columns_isLeast (count : Nat) :
    IsLeast {columns | count ≤ columns * columns} (columns count) := by
  have hroom : count ≤ count * count := Nat.le_mul_self count
  cases hfind : (List.range (count + 1)).find? fun columns => count ≤ columns * columns with
  | none =>
      have hnone := List.find?_eq_none.mp hfind count (by simp)
      exact absurd hroom (by simpa using hnone)
  | some found =>
      have hcolumns : columns count = found := by rw [columns, hfind, Option.getD_some]
      obtain ⟨hfound, hmem, hsmaller⟩ := List.find?_range_eq_some.mp hfind
      rw [hcolumns]
      refine ⟨by simpa using hfound, fun other hother => ?_⟩
      by_contra hless
      exact absurd hother (by simpa using hsmaller other (Nat.lt_of_not_le hless))

/-- The columns are the square root of the count, rounded up. -/
theorem columns_eq_ceil_sqrt (count : Nat) : columns count = ⌈Real.sqrt count⌉₊ := by
  have hroom : ∀ columns : Nat, ⌈Real.sqrt count⌉₊ ≤ columns ↔ count ≤ columns * columns := by
    intro columns
    rw [Nat.ceil_le, Real.sqrt_le_left (Nat.cast_nonneg columns), sq]
    exact_mod_cast Iff.rfl
  obtain ⟨hcolumns, hleast⟩ := columns_isLeast count
  exact Nat.le_antisymm (hleast ((hroom _).mp le_rfl)) ((hroom _).mpr hcolumns)

/-! ### The cells -/

variable {count index : Nat}

/-- Every table is in a cell of the square. -/
theorem cell_lt (h : index < count) :
    (cell count index).1 < columns count ∧ (cell count index).2 < columns count := by
  have hroom : index < columns count * columns count := h.trans_le (columns_isLeast count).1
  have hpositive : 0 < columns count := Nat.pos_of_mul_pos_right (Nat.zero_lt_of_lt hroom)
  exact ⟨Nat.div_lt_of_lt_mul hroom, Nat.mod_lt _ hpositive⟩

/-- The cells are counted row by row. -/
theorem row_mul_add_column (count index : Nat) :
    (cell count index).1 * columns count + (cell count index).2 = index :=
  Nat.div_add_mod' index (columns count)

theorem cell_injective (count : Nat) : Function.Injective (cell count) := by
  intro index other hcell
  rw [← row_mul_add_column count index, hcell, row_mul_add_column]

/-- A cell of an earlier row has a table in it. -/
theorem exists_cell_eq {row column : Nat} (hrow : row < (cell count index).1)
    (hcolumn : column < columns count) : ∃ other < index, cell count other = (row, column) := by
  refine ⟨row * columns count + column, ?_, ?_⟩
  · calc row * columns count + column
        < (row + 1) * columns count := by rw [Nat.succ_mul]; omega
      _ ≤ (cell count index).1 * columns count := Nat.mul_le_mul_right _ hrow
      _ ≤ index := Nat.div_mul_le_self index (columns count)
  · unfold cell
    rw [Nat.mul_comm, Nat.mul_add_div (Nat.zero_lt_of_lt hcolumn), Nat.div_eq_of_lt hcolumn,
      Nat.mul_add_mod, Nat.mod_eq_of_lt hcolumn, Nat.add_zero]

/-- A table moved to the cell that it has among so many tables. -/
def settle (grid : Grid) (count index : Nat) (table : Entity) : Entity :=
  table.moveTo (grid.position (cell count index))

end Grid

namespace Diagram

/-! ### The tables -/

/-- The tables of a diagram are placed on a grid: `cell` says in which row and column a table is,
by its place in the diagram. -/
structure OnGrid (diagram placed : Diagram) (grid : Grid) (columns : Nat) (cell : Nat → Nat × Nat) :
    Prop where
  /-- The grid is the smallest square with room for all tables. -/
  square : IsLeast {side | diagram.members.length ≤ side * side} columns
  /-- A table is moved to its cell, and nothing else about it changes. -/
  moved : ∀ index node, diagram.members[index]? = some node →
    placed.node? node = (diagram.node? node).map fun table =>
      { table with
        x := grid.startX + Float.ofNat (cell index).2 * grid.cellWidth
        y := grid.startY + Float.ofNat (cell index).1 * grid.cellHeight }
  /-- No cell is outside the square. -/
  inside : ∀ index < diagram.members.length, (cell index).1 < columns ∧ (cell index).2 < columns
  /-- The cells follow each other row by row. -/
  inOrder : ∀ index, (cell index).1 * columns + (cell index).2 = index
  /-- No two tables are in one cell. -/
  apart : Function.Injective cell
  /-- Above a row that is used, every row is full. -/
  filled : ∀ index < diagram.members.length, ∀ row < (cell index).1, ∀ column < columns,
    ∃ other < diagram.members.length, cell other = (row, column)
  /-- A table that is not shown stays as it is. -/
  others : ∀ node ∉ diagram.members, placed.node? node = diagram.node? node
  /-- Nothing but tables changes. -/
  frame : placed = { diagram with pool := placed.pool }

/-- **A diagram that shows no table twice is placed on the smallest square grid**, row by row and
one table in each cell; its side is the square root of the count of tables, rounded up. -/
theorem autoLayout_grid {diagram : Diagram} (h : diagram.members.Nodup) (grid : Grid) :
    OnGrid diagram (diagram.autoLayout grid) grid (Grid.columns diagram.members.length)
        (Grid.cell diagram.members.length) ∧
      Grid.columns diagram.members.length = ⌈Real.sqrt diagram.members.length⌉₊ := by
  have hlayout : diagram.autoLayout grid = diagram.members.zipIdx.foldl (fun placed pair =>
      placed.modify pair.1 (grid.settle diagram.members.length pair.2)) diagram := rfl
  have hnodes : diagram.members.zipIdx.map Prod.fst = diagram.members := List.zipIdx_map_fst _ _
  refine ⟨?_, Grid.columns_eq_ceil_sqrt _⟩
  rw [hlayout]
  constructor
  case square => exact Grid.columns_isLeast _
  case moved =>
    intro index node hnode
    have hmem : (node, index) ∈ diagram.members.zipIdx := List.mk_mem_zipIdx_iff_getElem?.mpr hnode
    exact Graph.node?_foldl_modify_of_mem diagram (hnodes.symm ▸ h) hmem
  case inside => exact fun index hindex => Grid.cell_lt hindex
  case inOrder => exact Grid.row_mul_add_column _
  case apart => exact Grid.cell_injective _
  case filled =>
    intro index hindex row hrow column hcolumn
    obtain ⟨other, hother, hcell⟩ := Grid.exists_cell_eq hrow hcolumn
    exact ⟨other, hother.trans hindex, hcell⟩
  case others =>
    intro node hnode
    exact Graph.node?_foldl_modify_of_not_mem diagram (hnodes.symm ▸ hnode)
  case frame => exact Graph.foldl_modify_eq diagram _

/-- A diagram of six tables without columns. -/
def sixTables : Diagram :=
  ["a", "b", "c", "d", "e", "f"].foldl
    (fun diagram name => diagram.insert { name := name.toList }) (.empty [])

/-- Six tables take two rows of three columns, and the last one is at the end of the second row. -/
theorem autoLayout_grid_sixTables :
    sixTables.members.Nodup ∧
      (OnGrid sixTables (sixTables.autoLayout {}) {} 3 (Grid.cell 6) ∧ 3 = ⌈Real.sqrt (6 : Nat)⌉₊) ∧
      Grid.cell 6 5 = (1, 2) := by
  have hdistinct : sixTables.members.Nodup := by decide
  have hcolumns : Grid.columns 6 = 3 := by decide
  have hgrid := autoLayout_grid hdistinct {}
  exact ⟨hdistinct, hcolumns ▸ hgrid, by decide⟩

end Diagram

end Diagrams.Er
