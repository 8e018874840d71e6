import NodalAlgebra.Size
import NodalAlgebra.Mesh.Basic

/-!
# Uniform grids

Meshes of an interval, of a rectangle in squares and of the unit square in
triangles. A grid of squares numbers its vertices row by row from the top left
corner, and lists the corners of each square from the bottom left one on, first
along the lower edge. Without cells a grid is the empty mesh.
-/

namespace NodalAlgebra.Grid

variable {α : Type}

/-! ## Interval -/

/-- The points `i / n` of the unit interval. -/
def intervalVertices [One α] [Mul α] [Div α] [NatCast α] (n : Nat) : Array (Array α) :=
  let h : α := 1 / (n : α)
  (Array.range (n + 1)).map fun (i : Nat) => #[(i : α) * h]

/-- The end points of the `n` parts of an interval. -/
def intervalCells (n : Nat) : Array Nat :=
  (Array.range n).flatMap fun i => #[i, i + 1]

/-- The unit interval in `n` equal parts. -/
def unitInterval [One α] [Mul α] [Div α] [NatCast α] (supply : MeshSupply) (n : Nat) :
    Except (Failure MeshError) (Mesh α × MeshSupply) := do
  if n = 0 then Failure.ofRefusal (supply.build .interval #[] #[])
  else
    let _ ← Failure.ofFault (Size.entries? n)
    Failure.ofRefusal (supply.build .interval (intervalVertices n) (intervalCells n))

/-! ## Squares -/

/-- The points of a grid of `nx` by `ny` squares of side `h`, with the top left
corner at `(x, y)`. -/
def squareVertices [Add α] [Neg α] [Mul α] [NatCast α] (nx ny : Nat) (h x y : α) :
    Array (Array α) :=
  (Array.range (ny + 1)).flatMap fun (j : Nat) =>
    (Array.range (nx + 1)).map fun (i : Nat) => #[x + (i : α) * h, y + -(j : α) * h]

/-- The number of the vertex in column `i` and row `j`. -/
def vertexIndex (nx i j : Nat) : Nat := (nx + 1) * j + i

/-- The corners of the square in column `i` and row `j`. -/
def squareCorners (nx i j : Nat) : List Nat :=
  [vertexIndex nx i (j + 1), vertexIndex nx (i + 1) (j + 1), vertexIndex nx (i + 1) j,
    vertexIndex nx i j]

/-- The corners of all squares, row by row. -/
def squareCells (nx ny : Nat) : Array Nat :=
  (Array.range ny).flatMap fun j =>
    (Array.range nx).flatMap fun i => (squareCorners nx i j).toArray

/-- A rectangle of `unitsX` by `unitsY` units, each cut into `cellsPerUnit` parts,
with the top left corner at `(x, y)`. The numbers of vertices have to be sizes. -/
def rectangle [Add α] [Neg α] [Mul α] [Div α] [NatCast α] (supply : MeshSupply)
    (unitLength : α) (unitsX unitsY cellsPerUnit : Nat) (x y : α) :
    Except (Failure MeshError) (Mesh α × MeshSupply) := do
  if cellsPerUnit = 0 ∨ unitsX = 0 ∨ unitsY = 0 then
    Failure.ofRefusal (supply.build .quadrilateral #[] #[])
  else
    let nx ← Failure.ofFault (Size.mul? unitsX cellsPerUnit)
    let ny ← Failure.ofFault (Size.mul? unitsY cellsPerUnit)
    let columns ← Failure.ofFault (Size.add? nx 1)
    let rows ← Failure.ofFault (Size.add? ny 1)
    let _ ← Failure.ofFault (Size.mul? columns rows)
    let vertices := squareVertices nx ny (unitLength / (cellsPerUnit : α)) x y
    Failure.ofRefusal (supply.build .quadrilateral vertices (squareCells nx ny))

/-- The unit square in `n` by `n` squares. -/
def unitSquare [Zero α] [One α] [Add α] [Neg α] [Mul α] [Div α] [NatCast α]
    (supply : MeshSupply) (n : Nat) : Except (Failure MeshError) (Mesh α × MeshSupply) :=
  rectangle supply 1 1 1 n 0 1

/-! ## Triangles -/

/-- The two triangles of a square, on either side of the diagonal from its first
corner. -/
def splitSquare : List Nat → List Nat
  | [a, b, c, d] => [a, b, c, a, c, d]
  | _ => []

/-- The mesh of the triangles that the cells of a mesh of squares are split into. -/
def splitSquares (supply : MeshSupply) (M : Mesh α) :
    Except MeshError (Mesh α × MeshSupply) :=
  supply.build .triangle M.vertices (M.cells.flatMap splitSquare).toArray

/-- The unit square in `n` by `n` squares of two triangles each. The squares are a
mesh of their own. -/
def unitSquareTriangles [Zero α] [One α] [Add α] [Neg α] [Mul α] [Div α] [NatCast α]
    (supply : MeshSupply) (n : Nat) : Except (Failure MeshError) (Mesh α × MeshSupply) := do
  let (squares, supply) ← unitSquare supply n
  Failure.ofRefusal (splitSquares supply squares)

end NodalAlgebra.Grid
