import NodalAlgebra.Mesh.Lemmas
import NodalAlgebra.Proofs.Agreement
import NodalAlgebra.Proofs.Blocks

/-!
# Interpolation

A space has as many node coordinates as nodes, wherever the nodes are placed
(`Mesh.length_nodePoints`). The interpolant of a function of position is therefore
the function whose block at each node holds the components at the node's
coordinates (`NodalFunction.interpolate_eq_ok`), and its value there is read from
them (`NodalFunction.nodeValue?_interpolate`).
-/

namespace NodalAlgebra

variable {α : Type} [Zero α] [Add α] [Div α] [NatCast α]

/-! ## Coordinates of the nodes -/

/-- Every cell has a centre. -/
theorem Mesh.isSome_centroid? {M : Mesh α} {i : Nat} (hi : i < M.cellCount) :
    (M.centroid? i).isSome = true := by
  simp [Mesh.centroid?, Mesh.cellVertices?, hi]

theorem Mesh.length_nodePoints (M : Mesh α) (p : NodePlacement) :
    (M.nodePoints p).length = M.nodeCount p := by
  cases p with
  | vertices => simp [nodePoints, nodeCount]
  | cellCentres =>
      rw [nodePoints, nodeCount, List.length_filterMap_eq_countP, List.countP_eq_length.2,
        List.length_range]
      intro i hi
      exact isSome_centroid? (List.mem_range.1 hi)
  | cellCorners =>
      -- the corners are all vertex indices of the mesh, and the cells are whole
      rw [nodePoints, nodeCount, cellCount_mul_vertexCount, flatten_cells, length_points,
        Array.length_toList]
      intro i hi
      exact M.inRange i (Array.mem_toList_iff.1 hi)

theorem FunctionSpace.length_nodePoints (V : FunctionSpace α) :
    V.nodePoints.length = V.nodeCount :=
  Mesh.length_nodePoints V.mesh V.placement

/-- Spaces of one scalar element on one mesh have their nodes at the same places. -/
theorem FunctionSpace.nodePoints_eq {V W : FunctionSpace α} (hmesh : V.mesh = W.mesh)
    (helement : V.whole.scalarElement = W.whole.scalarElement) : V.nodePoints = W.nodePoints := by
  rw [nodePoints, nodePoints, hmesh, placement_eq_of_scalarElement helement]

/-! ## Interpolants -/

namespace NodalFunction

variable {V : FunctionSpace α} {φ : Array α → Array α} {f : NodalFunction α}

/-- The interpolant has the components at each node's coordinates as its block. -/
theorem interpolate_eq_ok :
    interpolate V φ = .ok f ↔
      f.space = V ∧ f.mark = none
        ∧ ∀ n x, V.nodePoints[n]? = some x → f.block n = (φ x).toList := by
  have hlength : (V.nodePoints.map φ).length = V.nodeCount := by
    rw [List.length_map, V.length_nodePoints]
  rw [interpolate, ofNodeValues_eq_ok hlength]
  refine and_congr_right fun _ => and_congr_right fun _ => ⟨?_, ?_⟩
  · intro h n x hx
    obtain ⟨hn, rfl⟩ := List.getElem?_eq_some_iff.1 hx
    rw [h n (by simpa using hn), List.getElem_map]
  · intro h n hn
    rw [List.getElem_map]
    exact h n _ (List.getElem?_eq_getElem (by simpa using hn))

/-- The value of an interpolant at a node is that of the interpolated function. -/
theorem nodeValue?_interpolate (h : interpolate V φ = .ok f) {n : Nat} {x : Array α}
    (hx : V.nodePoints[n]? = some x) :
    f.nodeValue? n = TensorValue.read? V.element.valueShape.dims (φ x) := by
  obtain ⟨rfl, -, hblocks⟩ := interpolate_eq_ok.1 h
  have hn : n < f.space.nodeCount := by
    rw [← f.space.length_nodePoints]
    exact (List.getElem?_eq_some_iff.1 hx).1
  rw [nodeValue?_eq_read? hn, hblocks n x hx, Array.toArray_toList, valueShape]

end NodalFunction

end NodalAlgebra
