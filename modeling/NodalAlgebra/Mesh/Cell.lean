/-!
# Cells

The reference cells that the cells of a mesh are images of.
-/

namespace NodalAlgebra

/-- A reference cell. -/
inductive CellType where
  | interval
  | triangle
  | quadrilateral
  | tetrahedron
  | hexahedron
deriving DecidableEq

namespace CellType

/-- The number of corners of a cell. -/
def vertexCount : CellType → Nat
  | .interval => 2
  | .triangle => 3
  | .quadrilateral => 4
  | .tetrahedron => 4
  | .hexahedron => 8

/-- The dimension of the space the reference cell fills. -/
def referenceDim : CellType → Nat
  | .interval => 1
  | .triangle | .quadrilateral => 2
  | .tetrahedron | .hexahedron => 3

/-- The name of a cell. -/
def text : CellType → String
  | .interval => "interval"
  | .triangle => "triangle"
  | .quadrilateral => "quadrilateral"
  | .tetrahedron => "tetrahedron"
  | .hexahedron => "hexahedron"

theorem vertexCount_pos (c : CellType) : 0 < c.vertexCount := by
  cases c <;> decide

end CellType

end NodalAlgebra
