import NodalAlgebra.Mesh.Basic
import NodalAlgebra.Element.Basic

/-!
# Nodes

Where the nodes of a scalar element lie on a mesh and in which order: at the
vertices, at the cell centres, or at the corners of each cell in turn.
-/

namespace NodalAlgebra

/-- The places of the nodes. -/
inductive NodePlacement where
  | vertices
  | cellCentres
  /-- The corners of every cell, each cell with nodes of its own. -/
  | cellCorners
deriving DecidableEq

/-- The placement of an element's nodes, for the elements with a known one. -/
def ScalarElement.placement? (e : ScalarElement) : Option NodePlacement :=
  match e.family, e.degree with
  | .lagrange, 1 => some .vertices
  | .discontinuousLagrange, 0 => some .cellCentres
  | .discontinuousLagrange, 1 => some .cellCorners
  | _, _ => none

namespace Mesh

variable {α : Type}

/-- The number of nodes of a placement. -/
def nodeCount (M : Mesh α) : NodePlacement → Nat
  | .vertices => M.vertices.size
  | .cellCentres => M.cellCount
  | .cellCorners => M.cellCount * M.cell.vertexCount

/-- The coordinates of the nodes in order. -/
def nodePoints [Zero α] [Add α] [Div α] [NatCast α] (M : Mesh α) :
    NodePlacement → List (Array α)
  | .vertices => M.vertices.toList
  | .cellCentres => (List.range M.cellCount).filterMap M.centroid?
  | .cellCorners => M.points M.cells.flatten

end Mesh

end NodalAlgebra
