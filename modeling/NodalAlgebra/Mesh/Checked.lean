import NodalAlgebra.Space.Nodes

/-!
# Mesh accesses with checks

The cells of a mesh, their centres and the coordinates of the nodes, read with a look at
the bounds of every table. A slice that reaches beyond the list of indices, an index that
names no vertex and a sum of points of different dimensions are faults.
-/

namespace NodalAlgebra.Checked

variable {α : Type}

/-- The vertex indices of cell `i`, a slice of the list of indices. -/
def cellVertices (M : Mesh α) (i : Nat) : Except Fault (List Nat) :=
  let k := M.cell.vertexCount
  if k * (i + 1) ≤ M.connectivity.size then
    .ok (M.connectivity.extract (k * i) (k * (i + 1))).toList
  else .error .outOfRange

/-- The vertex of an index. -/
def vertex (M : Mesh α) (i : Nat) : Except Fault (Array α) :=
  match M.vertices[i]? with
  | some x => .ok x
  | none => .error .outOfRange

/-- The sum of two points, which have to be of one dimension. -/
def addPoints [Add α] (x y : Array α) : Except Fault (Array α) :=
  if x.size = y.size then .ok (Array.zipWith (· + ·) x y) else .error .lengthMismatch

variable [Zero α] [Add α] [Div α] [NatCast α]

/-- The mean of the vertices of cell `i`, added in order. -/
def centroid (M : Mesh α) (i : Nat) : Except Fault (Array α) := do
  let corners ← cellVertices M i
  let sum ← corners.foldlM (fun s v => do addPoints s (← vertex M v))
    (Array.replicate M.geometryDim 0)
  return sum.map fun x => x / (corners.length : α)

/-- The coordinates of the nodes in order. -/
def nodePoints (M : Mesh α) : NodePlacement → Except Fault (List (Array α))
  | .vertices => .ok M.vertices.toList
  | .cellCentres => (List.range M.cellCount).mapM (centroid M)
  | .cellCorners => M.cells.flatten.mapM (vertex M)

end NodalAlgebra.Checked
