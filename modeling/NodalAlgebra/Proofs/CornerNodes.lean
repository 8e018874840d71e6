import NodalAlgebra.Proofs.DeclaredShapes
import NodalAlgebra.Proofs.LeafDiscretizations
import NodalAlgebra.Proofs.NodeFilling

/-!
# Nodes at the corners of cells

Of the two elements of degree one, the discontinuous one has a node at every corner of every
cell, and the continuous one a node at every vertex. In cells with `k` corners, corner `j` of
cell `i` is node `i * k + j` (`FunctionSpace.exists_nodePoint_corner`): it lies at the vertex that
the cell names there, so a vertex shared by several cells bears one node for each of them.
Two functions can therefore be compared corner by corner (`NodalFunction.AgreesAtCorners`).
The two interpolants of one field agree (`NodalFunction.SameField.agreesAtCorners`), and so
do the values of two trees whose leaves agree (`evaluate_agreesAtCorners`).
-/

namespace NodalAlgebra

variable {α : Type}

/-! ## Corners -/

namespace Mesh

/-- The vertex at corner `j` of cell `i`. -/
def corner? (M : Mesh α) (i j : Nat) : Option Nat :=
  (M.cellVertices? i).bind fun corners => corners[j]?

variable {M : Mesh α} {i j v : Nat}

theorem exists_corner? (hi : i < M.cellCount) (hj : j < M.cell.vertexCount) :
    ∃ v, M.corner? i j = some v ∧ v < M.vertices.size := by
  rw [← length_cells] at hi
  have hcell : M.cells[i] ∈ M.cells := List.getElem_mem hi
  have hj' : j < M.cells[i].length := by rwa [length_of_mem_cells hcell]
  refine ⟨M.cells[i][j], ?_, lt_of_mem_cells hcell (List.getElem_mem hj')⟩
  rw [corner?, cellVertices?_eq, List.getElem?_eq_getElem hi, Option.bind_some,
    List.getElem?_eq_getElem hj']

/-- Corners are counted within the mesh. -/
theorem corner_lt (hi : i < M.cellCount) (hj : j < M.cell.vertexCount) :
    i * M.cell.vertexCount + j < M.cellCount * M.cell.vertexCount := by
  have hle : (i + 1) * M.cell.vertexCount ≤ M.cellCount * M.cell.vertexCount :=
    Nat.mul_le_mul_right _ hi
  rw [Nat.succ_mul] at hle
  omega

/-- In the list of the vertex indices of all cells, corner `j` of cell `i` has its place after
the corners of the cells before. -/
theorem getElem?_flatten_cells (hi : i < M.cellCount) (hj : j < M.cell.vertexCount) :
    M.cells.flatten[i * M.cell.vertexCount + j]? = M.corner? i j := by
  have hlt := corner_lt hi hj
  have hdiv : (i * M.cell.vertexCount + j) / M.cell.vertexCount = i :=
    Nat.div_eq_of_lt_le (by omega) (by rw [Nat.succ_mul]; omega)
  have hmod : (i * M.cell.vertexCount + j) % M.cell.vertexCount = j :=
    Nat.mul_add_mod_of_lt hj
  rw [getElem?_flatten_block (fun c hc => length_of_mem_cells hc) (by rwa [length_cells]), hdiv,
    hmod, corner?, cellVertices?_eq, Option.bind_eq_bind]

theorem lt_of_mem_flatten_cells (hv : v ∈ M.cells.flatten) : v < M.vertices.size := by
  obtain ⟨c, hc, hv⟩ := List.mem_flatten.1 hv
  exact lt_of_mem_cells hc hv

variable [Zero α] [Add α] [Div α] [NatCast α]

/-- The node of a corner lies at the vertex there. -/
theorem getElem?_nodePoints_corner (hi : i < M.cellCount) (hj : j < M.cell.vertexCount)
    (hv : M.corner? i j = some v) :
    (M.nodePoints .cellCorners)[i * M.cell.vertexCount + j]? = M.vertices[v]? := by
  rw [nodePoints, getElem?_points fun _ => lt_of_mem_flatten_cells, getElem?_flatten_cells hi hj,
    hv, Option.bind_some]

/-- The nodes at the corners lie at vertices. -/
theorem mem_vertices_of_corner {x : Array α} (hx : x ∈ M.nodePoints .cellCorners) :
    x ∈ M.vertices := by
  obtain ⟨v, -, hv⟩ := List.mem_filterMap.1 hx
  exact Array.mem_of_getElem? hv

end Mesh

/-! ## Spaces of degree one -/

/-- The discontinuous element of degree one, with nodes at the corners of the cells. -/
def ScalarElement.atCorners (cell : CellType) : ScalarElement := ⟨.discontinuousLagrange, 1, cell⟩

/-- The continuous element of degree one, with nodes at the vertices. -/
def ScalarElement.atVertices (cell : CellType) : ScalarElement := ⟨.lagrange, 1, cell⟩

theorem ScalarElement.placement?_atCorners (cell : CellType) :
    (atCorners cell).placement? = some .cellCorners := rfl

theorem ScalarElement.placement?_atVertices (cell : CellType) :
    (atVertices cell).placement? = some .vertices := rfl

namespace FunctionSpace

variable [Zero α] [Add α] [Div α] [NatCast α]
variable {M : Mesh α} {s : Shape} {V W : FunctionSpace α}

/-- Corner `j` of cell `i` is node `i * k + j` of the one space, and the vertex there is the
node of its number of the other: they lie at the same place. -/
theorem exists_nodePoint_corner (hV : ofShape (.atCorners M.cell) s M = .ok V)
    (hW : ofShape (.atVertices M.cell) s M = .ok W) {i j : Nat} (hi : i < M.cellCount)
    (hj : j < M.cell.vertexCount) :
    ∃ v x, M.corner? i j = some v ∧ M.vertices[v]? = some x
      ∧ V.nodePoints[i * M.cell.vertexCount + j]? = some x ∧ W.nodePoints[v]? = some x := by
  obtain ⟨v, hv, hlt⟩ := Mesh.exists_corner? hi hj
  have hx : M.vertices[v]? = some M.vertices[v] := Array.getElem?_eq_getElem hlt
  refine ⟨v, _, hv, hx, ?_, ?_⟩
  · rw [nodePoints_of_ofShape (ScalarElement.placement?_atCorners _) hV,
      Mesh.getElem?_nodePoints_corner hi hj hv, hx]
  · rw [nodePoints_of_ofShape (ScalarElement.placement?_atVertices _) hW, Mesh.nodePoints,
      Array.getElem?_toList, hx]

/-- In the space of a shape, a function of position that has the components of the shape at
every node has an interpolant. -/
theorem exists_interpolate_of_ofShape {e : ScalarElement} (h : ofShape e s M = .ok V)
    {φ : Array α → Array α} (hφ : ∀ x ∈ V.nodePoints, (φ x).size = s.componentCount) :
    ∃ f, NodalFunction.interpolate V φ = .ok f := by
  obtain ⟨-, -, rfl, hwhole⟩ := ofShape_eq_ok.1 h
  refine NodalFunction.exists_interpolate hwhole fun x hx => ?_
  rw [hφ x hx, FiniteElement.componentCount_valueShape, stride]

end FunctionSpace

/-! ## Interpolants of one field -/

namespace NodalFunction

variable {M : Mesh α} {f g : NodalFunction α}

/-- The first function has at each corner of each cell the value that the second one has at
the vertex there. The corners are the nodes of the first function, cell after cell, and the
vertices are those of the second. -/
structure AgreesAtCorners (M : Mesh α) (f g : NodalFunction α) : Prop where
  nodeCount_corners : f.space.nodeCount = M.cellCount * M.cell.vertexCount
  nodeCount_vertices : g.space.nodeCount = M.vertices.size
  nodeValue?_corner : ∀ i < M.cellCount, ∀ j < M.cell.vertexCount, ∃ v a,
    M.corner? i j = some v ∧ f.nodeValue? (i * M.cell.vertexCount + j) = some a
      ∧ g.nodeValue? v = some a

variable [Zero α] [Add α] [Div α] [NatCast α]

/-- Two functions are, under whatever marks, the interpolants of one function of position in
the discontinuous and in the continuous space of degree one for values of one shape. -/
def SameField (M : Mesh α) (f g : NodalFunction α) : Prop :=
  ∃ s φ, FunctionSpace.ofShape (.atCorners M.cell) s M = .ok f.space
    ∧ FunctionSpace.ofShape (.atVertices M.cell) s M = .ok g.space
    ∧ interpolate f.space φ = .ok { f with mark := none }
    ∧ interpolate g.space φ = .ok { g with mark := none }

theorem SameField.of_interpolate {s : Shape} {V W : FunctionSpace α}
    (hV : FunctionSpace.ofShape (.atCorners M.cell) s M = .ok V)
    (hW : FunctionSpace.ofShape (.atVertices M.cell) s M = .ok W) {φ : Array α → Array α}
    (hf : interpolate V φ = .ok f) (hg : interpolate W φ = .ok g) : SameField M f g := by
  obtain ⟨rfl, hfmark, -⟩ := interpolate_eq_ok.1 hf
  obtain ⟨rfl, hgmark, -⟩ := interpolate_eq_ok.1 hg
  refine ⟨s, φ, hV, hW, ?_, ?_⟩
  · rw [hf, ← hfmark]
  · rw [hg, ← hgmark]

/-- The interpolants of one function of position agree at the corners. -/
theorem SameField.agreesAtCorners (h : SameField M f g) : AgreesAtCorners M f g := by
  obtain ⟨s, φ, hV, hW, hf, hg⟩ := h
  have hcount : f.space.nodeCount = M.cellCount * M.cell.vertexCount :=
    FunctionSpace.nodeCount_of_ofShape (ScalarElement.placement?_atCorners _) hV
  have hcount' : g.space.nodeCount = M.vertices.size :=
    FunctionSpace.nodeCount_of_ofShape (ScalarElement.placement?_atVertices _) hW
  refine ⟨hcount, hcount', fun i hi j hj => ?_⟩
  obtain ⟨v, x, hv, -, hx, hy⟩ := FunctionSpace.exists_nodePoint_corner hV hW hi hj
  -- both values are read from the components at the vertex, by the same shape
  have hshape : f.space.element.valueShape = g.space.element.valueShape := by
    obtain ⟨-, -, hVshape, -⟩ := FunctionSpace.ofShape_eq_ok.1 hV
    obtain ⟨-, -, hWshape, -⟩ := FunctionSpace.ofShape_eq_ok.1 hW
    rw [FunctionSpace.element_of_whole f.whole, FunctionSpace.element_of_whole g.whole, hVshape,
      hWshape]
  obtain ⟨a, ha⟩ := f.exists_nodeValue? (hcount ▸ Mesh.corner_lt hi hj)
  refine ⟨v, a, hv, ha, ?_⟩
  calc g.nodeValue? v
      = TensorValue.read? g.space.element.valueShape.dims (φ x) := nodeValue?_interpolate hg hy
    _ = TensorValue.read? f.space.element.valueShape.dims (φ x) := by rw [hshape]
    _ = f.nodeValue? (i * M.cell.vertexCount + j) := (nodeValue?_interpolate hf hx).symm
    _ = some a := ha

end NodalFunction

/-! ## Values of trees -/

/-- If the functions of two trees agree at the corners, leaf by leaf, so do the functions
that the trees evaluate to. -/
theorem evaluate_agreesAtCorners [Zero α] {R : Rules α} {M : Mesh α} {e e' : Expr α}
    {f g : NodalFunction α} (halike : Expr.Alike (NodalFunction.AgreesAtCorners M) Eq e e')
    (h : evaluate R e = .ok (.function f)) (h' : evaluate R e' = .ok (.function g)) :
    NodalFunction.AgreesAtCorners M f g := by
  have hleaves := halike.forall₂_functions
  have hcount : f.space.nodeCount = M.cellCount * M.cell.vertexCount := by
    obtain ⟨u, hu, hcount⟩ := exists_nodeCount_of_evaluate h
    obtain ⟨_, -, huv⟩ := exists_of_mem_forall₂ hleaves.flip hu
    exact hcount.symm.trans huv.nodeCount_corners
  have hcount' : g.space.nodeCount = M.vertices.size := by
    obtain ⟨v, hv, hcount⟩ := exists_nodeCount_of_evaluate h'
    obtain ⟨_, -, huv⟩ := exists_of_mem_forall₂ hleaves hv
    exact hcount.symm.trans huv.nodeCount_vertices
  refine ⟨hcount, hcount', fun i hi j hj => ?_⟩
  obtain ⟨v, hv, -⟩ := Mesh.exists_corner? hi hj
  obtain ⟨a, ha⟩ := f.exists_nodeValue? (hcount ▸ Mesh.corner_lt hi hj)
  -- the trees stand for one value: the first at the node of the corner, the second at the vertex
  have hleaf : Expr.Alike (fun (u w : NodalFunction α) =>
      u.nodeValue? (i * M.cell.vertexCount + j) = w.nodeValue? v) Eq e e' := by
    refine halike.imp fun u _ w _ huw => ?_
    obtain ⟨v', b, hv', hb, hb'⟩ := huw.nodeValue?_corner i hi j hj
    obtain rfl : v = v' := Option.some.inj (hv.symm.trans hv')
    exact hb.trans hb'.symm
  have hvalue : e'.valueAt R (·.nodeValue? v) = some (.tensor a) := by
    rw [← Expr.valueAt_of_alike hleaf]
    exact valueAt_of_evaluate h (by simp [Value.at?, ha])
  exact ⟨v, a, hv, ha, nodeValue?_of_valueAt h' hvalue⟩

section

variable [Zero α] [Add α] [Div α] [NatCast α]

/-- On every mesh, the two elements of degree one have spaces for the shapes of rank at most
two that have components and fit. In two spaces of one shape, corner `j` of cell `i` is node
`i * k + j` of the first, where cells have `k` corners, and lies at the vertex there, which
is a node of the second. Every function of position with enough components at the vertices
has an interpolant in both, and the interpolants agree at the corners. So do the functions
that two trees evaluate to, if the one tree has at its leaves the interpolants in the first
spaces and the other has there the interpolants of the same functions in the second ones. -/
theorem corner_nodes_agree (M : Mesh α) (R : Rules α) :
    (∀ s : Shape,
      ((∃ V, FunctionSpace.ofShape (.atCorners M.cell) s M = .ok V) ↔
        s.rank ≤ 2 ∧ 0 < s.componentCount ∧ s.Fits (M.cellCount * M.cell.vertexCount))
      ∧ ((∃ W, FunctionSpace.ofShape (.atVertices M.cell) s M = .ok W) ↔
        s.rank ≤ 2 ∧ 0 < s.componentCount ∧ s.Fits M.vertices.size))
      ∧ (∀ s V W, FunctionSpace.ofShape (.atCorners M.cell) s M = .ok V →
        FunctionSpace.ofShape (.atVertices M.cell) s M = .ok W →
        (∀ i < M.cellCount, ∀ j < M.cell.vertexCount, ∃ v x, M.corner? i j = some v
          ∧ M.vertices[v]? = some x ∧ V.nodePoints[i * M.cell.vertexCount + j]? = some x
          ∧ W.nodePoints[v]? = some x)
        ∧ ∀ φ : Array α → Array α, (∀ x ∈ M.vertices, (φ x).size = s.componentCount) →
          ∃ f g, NodalFunction.interpolate V φ = .ok f ∧ NodalFunction.interpolate W φ = .ok g
            ∧ NodalFunction.SameField M f g ∧ NodalFunction.AgreesAtCorners M f g)
      ∧ ∀ e e' f g, Expr.Alike (NodalFunction.SameField M) Eq e e' →
        evaluate R e = .ok (.function f) → evaluate R e' = .ok (.function g) →
        NodalFunction.AgreesAtCorners M f g := by
  refine ⟨fun s => ⟨?_, ?_⟩, fun s V W hV hW => ⟨fun i hi j hj => ?_, fun φ hφ => ?_⟩, ?_⟩
  · exact FunctionSpace.exists_ofShape_iff rfl (ScalarElement.placement?_atCorners _)
  · exact FunctionSpace.exists_ofShape_iff rfl (ScalarElement.placement?_atVertices _)
  · exact FunctionSpace.exists_nodePoint_corner hV hW hi hj
  · have hcorners : V.nodePoints = M.nodePoints .cellCorners :=
      FunctionSpace.nodePoints_of_ofShape (ScalarElement.placement?_atCorners _) hV
    have hvertices : W.nodePoints = M.vertices.toList :=
      FunctionSpace.nodePoints_of_ofShape (ScalarElement.placement?_atVertices _) hW
    obtain ⟨f, hf⟩ := FunctionSpace.exists_interpolate_of_ofShape hV (φ := φ) fun x hx =>
      hφ x (Mesh.mem_vertices_of_corner (hcorners ▸ hx))
    obtain ⟨g, hg⟩ := FunctionSpace.exists_interpolate_of_ofShape hW (φ := φ) fun x hx =>
      hφ x (Array.mem_toList_iff.1 (hvertices ▸ hx))
    have hsame := NodalFunction.SameField.of_interpolate hV hW hf hg
    exact ⟨f, g, hf, hg, hsame, hsame.agreesAtCorners⟩
  · intro e e' f g halike h h'
    exact evaluate_agreesAtCorners (halike.imp fun _ _ _ _ huw => huw.agreesAtCorners) h h'

end

/-- The mesh of two intervals on a line that share the second of three points. The interval
that ends there comes last. -/
def twoIntervals (a b c : α) : Mesh α where
  id := ⟨0⟩
  cell := .interval
  vertices := #[#[a], #[b], #[c]]
  connectivity := #[1, 2, 0, 1]
  wholeCells := by decide
  uniform := by simp
  inRange := by simp

/-- On two intervals, the nodes 0 and 3 of the discontinuous element both lie at the shared
point, which is node 1 of the continuous one. The sum of a number and the discontinuous
interpolant of a vector field has at both of them the value that the sum of the number and
the continuous interpolant has there. -/
theorem corner_nodes_agree_intervals :
    let M := twoIntervals (0 : Float) 1 2
    let φ : Array Float → Array Float := fun x => x.push 5
    let plusThree : NodalFunction Float → Expr Float := fun f =>
      .operation .sum [.function f, .constant 3] (.vector 2)
    ∃ V W f g f' g', FunctionSpace.ofShape (.atCorners .interval) (.vector 2) M = .ok V
      ∧ FunctionSpace.ofShape (.atVertices .interval) (.vector 2) M = .ok W
      ∧ NodalFunction.interpolate V φ = .ok f ∧ NodalFunction.interpolate W φ = .ok g
      ∧ evaluate Rules.standard (plusThree f) = .ok (.function f')
      ∧ evaluate Rules.standard (plusThree g) = .ok (.function g')
      ∧ ∃ a, f'.nodeValue? 0 = some a ∧ f'.nodeValue? 3 = some a ∧ g'.nodeValue? 1 = some a := by
  intro M φ plusThree
  obtain ⟨hspaces, hinterpolants, hvalues⟩ := corner_nodes_agree M Rules.standard
  obtain ⟨V, hV⟩ := (hspaces (.vector 2)).1.2 ⟨by decide, by decide, rfl, by decide, by decide⟩
  obtain ⟨W, hW⟩ := (hspaces (.vector 2)).2.2 ⟨by decide, by decide, rfl, by decide, by decide⟩
  have hφ : ∀ x ∈ M.vertices, (φ x).size = (Shape.vector 2).componentCount := by
    intro x hx
    have hsize : x.size = 1 := M.uniform x hx #[0] (by simp [M, twoIntervals])
    rw [Array.size_push, hsize]
    rfl
  obtain ⟨f, g, hf, hg, hsame, -⟩ := (hinterpolants _ V W hV hW).2 φ hφ
  obtain ⟨f', hf'⟩ := exists_evaluate_sum_constant f 3 (.vector 2)
  obtain ⟨g', hg'⟩ := exists_evaluate_sum_constant g 3 (.vector 2)
  have hagree := hvalues (plusThree f) (plusThree g) f' g'
    (.operation (.cons (.function hsame) (.cons (.constant rfl) .nil))) hf' hg'
  obtain ⟨v, a, hv, ha, hga⟩ := hagree.nodeValue?_corner 0 (by decide) 0 (by decide)
  obtain ⟨w, b, hw, hb, hgb⟩ := hagree.nodeValue?_corner 1 (by decide) 1 (by decide)
  have hshared : M.corner? 0 0 = some 1 ∧ M.corner? 1 1 = some 1 := by decide
  obtain rfl : 1 = v := Option.some.inj (hshared.1.symm.trans hv)
  obtain rfl : 1 = w := Option.some.inj (hshared.2.symm.trans hw)
  obtain rfl : a = b := Option.some.inj (hga.symm.trans hgb)
  exact ⟨V, W, f, g, f', g', hV, hW, hf, hg, hf', hg', a, ha, hb, hga⟩

end NodalAlgebra
