/-
Placing tables on a grid that is as close to a square as their number allows, row by row.
-/
import Diagrams.Er.Diagram

namespace Diagrams.Er

/-- The measures of a grid. -/
structure Grid where
  /-- How wide a cell is. -/
  cellWidth : Float := 250
  /-- How high a cell is. -/
  cellHeight : Float := 300
  /-- Where the first column is. -/
  startX : Float := 50
  /-- Where the first row is. -/
  startY : Float := 50

namespace Grid

/-- How many columns a grid for `count` tables has: the least number whose square is not below
the count. -/
def columns (count : Nat) : Nat :=
  ((List.range (count + 1)).find? fun columns => count ≤ columns * columns).getD count

/-- The row and the column of a table, by its place in the diagram. -/
def cell (count index : Nat) : Nat × Nat :=
  (index / columns count, index % columns count)

/-- The position of a cell. -/
def position (grid : Grid) (cell : Nat × Nat) : Float × Float :=
  (grid.startX + Float.ofNat cell.2 * grid.cellWidth,
    grid.startY + Float.ofNat cell.1 * grid.cellHeight)

end Grid

/-- Move a table. -/
def Entity.moveTo (entity : Entity) (position : Float × Float) : Entity :=
  { entity with x := position.1, y := position.2 }

/-- Place all tables on the grid. -/
def Diagram.autoLayout (diagram : Diagram) (grid : Grid) : Diagram :=
  let count := diagram.members.length
  diagram.members.zipIdx.foldl
    (fun placed (node, index) =>
      placed.modify node (·.moveTo (grid.position (Grid.cell count index))))
    diagram

end Diagrams.Er
