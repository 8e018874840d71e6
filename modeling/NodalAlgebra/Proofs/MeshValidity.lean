import NodalAlgebra.Mesh.Checked
import NodalAlgebra.Mesh.Lemmas
import NodalAlgebra.Proofs.DofLayout
import NodalAlgebra.Proofs.MeshIdentity
import NodalAlgebra.Proofs.Sequence

/-!
# Validity of meshes

Which points and indices make a mesh, and which defect is reported of those that do not
(`Mesh.defect?_eq_some`): the conditions are looked at one after the other, and each for its
first offender. A mesh that has been accepted is read without looking at bounds, which
changes nothing: with a look at the bounds of every table the cells, the centres and the
coordinates of the nodes are the same (`Checked.centroid_eq_ok`, `Checked.nodePoints_eq`).
-/

namespace NodalAlgebra

variable {α β : Type}

/-! ## Defects -/

/-- The first entry of a table that has some property, with its place. -/
theorem find?_zipIdx_eq_some {xs : Array β} {p : β → Bool} {x : β} {i : Nat} :
    (xs.zipIdx.find? fun e => p e.1) = some (x, i)
      ↔ xs[i]? = some x ∧ p x = true ∧ ∀ j < i, ∀ y, xs[j]? = some y → p y = false := by
  rw [Array.find?_eq_some_iff_getElem]
  constructor
  · rintro ⟨hp, k, hk, heq, hbefore⟩
    simp only [Array.getElem_zipIdx, Nat.zero_add, Prod.mk.injEq] at heq
    obtain ⟨rfl, rfl⟩ := heq
    simp only [Array.size_zipIdx] at hk
    refine ⟨Array.getElem?_eq_getElem hk, hp, fun j hj y hy => ?_⟩
    have hj' := hbefore j hj
    obtain ⟨hlt, rfl⟩ := Array.getElem?_eq_some_iff.1 hy
    simpa using hj'
  · rintro ⟨hx, hp, hbefore⟩
    obtain ⟨hi, rfl⟩ := Array.getElem?_eq_some_iff.1 hx
    refine ⟨hp, i, by simpa using hi, by simp, fun j hj => ?_⟩
    have := hbefore j hj xs[j] (Array.getElem?_eq_getElem (by omega))
    simpa using this

namespace Mesh

variable {cell : CellType} {vertices : Array (Array α)} {connectivity : Array Nat}

/-- A vertex is the first one whose dimension `d` is not that of vertex zero, `e`. -/
def FirstOfOtherDimension (vertices : Array (Array α)) (v d e : Nat) : Prop :=
  ∃ first w, vertices[0]? = some first ∧ first.size = e ∧ vertices[v]? = some w ∧ w.size = d
    ∧ d ≠ e ∧ ∀ u < v, ∀ x, vertices[u]? = some x → x.size = e

/-- An index `i` in cell `c` is the first one that names none of the `n` vertices. -/
def FirstOutOfBounds (cell : CellType) (n : Nat) (connectivity : Array Nat) (c i : Nat) : Prop :=
  ∃ place, connectivity[place]? = some i ∧ n ≤ i
    ∧ cell.vertexCount * c ≤ place ∧ place < cell.vertexCount * (c + 1)
    ∧ ∀ q < place, ∀ j, connectivity[q]? = some j → j < n

theorem dimensionDefect?_eq_some {e : MeshError} :
    dimensionDefect? vertices = some e
      ↔ ∃ v d d₀, e = .vertexDimension v d d₀ ∧ FirstOfOtherDimension vertices v d d₀ := by
  unfold dimensionDefect?
  cases hfirst : vertices[0]? with
  | none =>
      refine iff_of_false nofun ?_
      rintro ⟨v, d, d₀, -, first, w, h, -⟩
      cases hfirst.symm.trans h
  | some first =>
      have hfind : ∀ w v, (vertices.zipIdx.find? fun x => x.1.size != first.size) = some (w, v)
          ↔ vertices[v]? = some w ∧ w.size ≠ first.size
            ∧ ∀ u < v, ∀ x, vertices[u]? = some x → x.size = first.size := by
        intro w v
        simpa using find?_zipIdx_eq_some (p := fun x : Array α => x.size != first.size)
      rw [Option.bind_some, Option.map_eq_some_iff]
      constructor
      · rintro ⟨⟨w, v⟩, h, rfl⟩
        obtain ⟨hw, hne, hbefore⟩ := (hfind w v).1 h
        exact ⟨v, _, _, rfl, first, w, hfirst, rfl, hw, rfl, hne, hbefore⟩
      · rintro ⟨v, d, d₀, rfl, first', w, hfirst', rfl, hw, rfl, hne, hbefore⟩
        cases hfirst.symm.trans hfirst'
        exact ⟨(w, v), (hfind w v).2 ⟨hw, hne, hbefore⟩, rfl⟩

theorem indexDefect?_eq_some {n : Nat} {e : MeshError} :
    indexDefect? cell n connectivity = some e
      ↔ ∃ c i, e = .indexOutOfBounds c i n ∧ FirstOutOfBounds cell n connectivity c i := by
  have hfind : ∀ i place, (connectivity.zipIdx.find? fun x => n ≤ x.1) = some (i, place)
      ↔ connectivity[place]? = some i ∧ n ≤ i
        ∧ ∀ q < place, ∀ j, connectivity[q]? = some j → j < n := by
    intro i place
    simpa using find?_zipIdx_eq_some (p := fun i : Nat => decide (n ≤ i))
  rw [indexDefect?, Option.map_eq_some_iff]
  constructor
  · rintro ⟨⟨i, place⟩, h, rfl⟩
    obtain ⟨hi, hlarge, hbefore⟩ := (hfind i place).1 h
    exact ⟨_, i, rfl, place, hi, hlarge, Nat.mul_div_le _ _,
      Nat.lt_mul_div_succ _ cell.vertexCount_pos, hbefore⟩
  · rintro ⟨c, i, rfl, place, hi, hlarge, hle, hlt, hbefore⟩
    have hc : place / cell.vertexCount = c := Nat.div_eq_of_lt_le (by rwa [Nat.mul_comm])
      (by rwa [Nat.mul_comm])
    exact ⟨(i, place), (hfind i place).2 ⟨hi, hlarge, hbefore⟩, by rw [hc]⟩

/-- The conditions are looked at in order, and the first one that fails decides. -/
theorem defect?_eq_some {e : MeshError} :
    defect? cell vertices connectivity = some e ↔
      (connectivity.size % cell.vertexCount ≠ 0
        ∧ e = .connectivityLength connectivity.size cell.vertexCount)
      ∨ (connectivity.size % cell.vertexCount = 0
        ∧ ∃ v d d₀, e = .vertexDimension v d d₀ ∧ FirstOfOtherDimension vertices v d d₀)
      ∨ (connectivity.size % cell.vertexCount = 0
        ∧ (∀ v ∈ vertices, ∀ w ∈ vertices, v.size = w.size)
        ∧ ∃ c i, e = .indexOutOfBounds c i vertices.size
          ∧ FirstOutOfBounds cell vertices.size connectivity c i) := by
  rw [← dimensionDefect?_eq_some, ← dimensionDefect?_eq_none_iff, ← indexDefect?_eq_some]
  unfold defect?
  split
  · rename_i hsize
    simp [hsize, eq_comm]
  · rename_i hsize
    simp [not_not.1 hsize, Option.or_eq_some_iff]

/-! ## Cells -/

/-- The last index of a cell still lies in the list of indices. -/
theorem lt_cellCount_iff {M : Mesh α} {i : Nat} :
    i < M.cellCount ↔ M.cell.vertexCount * (i + 1) ≤ M.connectivity.size := by
  rw [cellCount, ← Nat.succ_le_iff, Nat.le_div_iff_mul_le M.cell.vertexCount_pos, Nat.mul_comm]

theorem lt_of_mem_cellVertices {M : Mesh α} {i : Nat} {c : List Nat}
    (h : M.cellVertices? i = some c) {v : Nat} (hv : v ∈ c) : v < M.vertices.size := by
  rw [cellVertices?_eq] at h
  exact lt_of_mem_cells (List.mem_of_getElem? h) hv

end Mesh

/-! ## Accesses with checks -/

namespace Checked

variable {M : Mesh α} {i : Nat}

theorem cellVertices_eq_ok {c : List Nat} :
    cellVertices M i = .ok c ↔ M.cellVertices? i = some c := by
  unfold cellVertices Mesh.cellVertices?
  simp only [Mesh.lt_cellCount_iff]
  split <;> simp

theorem vertex_eq_ok {x : Array α} : vertex M i = .ok x ↔ M.vertices[i]? = some x := by
  unfold vertex
  split <;> simp [*]

/-- Points of a mesh can be added one after the other. -/
theorem foldlM_addPoints [Add α] {corners : List Nat} (h : ∀ v ∈ corners, v < M.vertices.size)
    {s : Array α} (hs : s.size = M.geometryDim) :
    corners.foldlM (fun s v => do addPoints s (← vertex M v)) s
      = .ok ((M.points corners).foldl (fun s p => Array.zipWith (· + ·) s p) s) := by
  induction corners generalizing s with
  | nil => rfl
  | cons v corners ih =>
      obtain ⟨hv, hcorners⟩ := List.forall_mem_cons.1 h
      have hget : M.vertices[v]? = some M.vertices[v] := Array.getElem?_eq_getElem hv
      have hdim : M.vertices[v].size = M.geometryDim :=
        Mesh.size_of_mem_vertices (Array.getElem_mem hv)
      have hstep : addPoints s M.vertices[v] = .ok (Array.zipWith (· + ·) s M.vertices[v]) :=
        if_pos (hs.trans hdim.symm)
      rw [List.foldlM_cons, vertex_eq_ok.2 hget, ok_bind, hstep, ok_bind, Mesh.points,
        List.filterMap_cons, hget]
      exact ih hcorners (by rw [Array.size_zipWith, hs, hdim, Nat.min_self])

variable [Zero α] [Add α] [Div α] [NatCast α]

/-- The centre of a cell is the same with checks. -/
theorem centroid_eq_ok {x : Array α} : centroid M i = .ok x ↔ M.centroid? i = some x := by
  rw [centroid, Mesh.centroid?, bind_eq_ok, Option.map_eq_some_iff]
  simp only [cellVertices_eq_ok]
  refine exists_congr fun c => and_congr_right fun hc => ?_
  rw [foldlM_addPoints (fun v hv => Mesh.lt_of_mem_cellVertices hc hv) Array.size_replicate]
  simp

/-- The coordinates of the nodes are the same with checks, wherever the nodes are placed. -/
theorem nodePoints_eq (M : Mesh α) (p : NodePlacement) :
    nodePoints M p = .ok (M.nodePoints p) := by
  cases p with
  | vertices => rfl
  | cellCentres =>
      refine mapM_eq_filterMap fun i hi => ?_
      obtain ⟨x, hx⟩ := Option.isSome_iff_exists.1
        (Mesh.isSome_centroid? (List.mem_range.1 hi) : (M.centroid? i).isSome = true)
      exact ⟨x, hx, centroid_eq_ok.2 hx⟩
  | cellCorners =>
      refine mapM_eq_filterMap fun v hv => ?_
      obtain ⟨c, hc, hv⟩ := List.mem_flatten.1 hv
      have hget := Array.getElem?_eq_getElem (Mesh.lt_of_mem_cells hc hv)
      exact ⟨_, hget, vertex_eq_ok.2 hget⟩

end Checked

/-! ## Construction -/

/-- What is read from a mesh without a look at bounds lies within them: the cells are slices
of the list of indices and items of the list of cells, they make up the list of indices and
name vertices only, and their centres and the coordinates of the nodes are the same with
checks. -/
structure Mesh.ReadInBounds [Zero α] [Add α] [Div α] [NatCast α] (M : Mesh α) : Prop where
  connectivity_size : M.cellCount * M.cell.vertexCount = M.connectivity.size
  cells_length : M.cells.length = M.cellCount
  cells_flatten : M.cells.flatten = M.connectivity.toList
  cellVertices : ∀ i < M.cellCount, ∃ c, Checked.cellVertices M i = .ok c
    ∧ M.cellVertices? i = some c ∧ M.cells[i]? = some c
  index_lt : ∀ c ∈ M.cells, ∀ v ∈ c, v < M.vertices.size
  centroid : ∀ i < M.cellCount, ∃ x, Checked.centroid M i = .ok x ∧ M.centroid? i = some x
  nodePoints : ∀ p, Checked.nodePoints M p = .ok (M.nodePoints p)

theorem Mesh.readInBounds [Zero α] [Add α] [Div α] [NatCast α] (M : Mesh α) :
    M.ReadInBounds := by
  refine ⟨M.cellCount_mul_vertexCount, M.length_cells, M.flatten_cells, fun i hi => ?_,
    fun c hc v hv => lt_of_mem_cells hc hv, fun i hi => ?_, Checked.nodePoints_eq M⟩
  · have hget := List.getElem?_eq_getElem (M.length_cells.symm ▸ hi)
    have hcell := (M.cellVertices?_eq i).trans hget
    exact ⟨_, Checked.cellVertices_eq_ok.2 hcell, hcell, hget⟩
  · obtain ⟨x, hx⟩ := Option.isSome_iff_exists.1 (isSome_centroid? (M := M) hi)
    exact ⟨x, Checked.centroid_eq_ok.2 hx, hx⟩

namespace MeshSupply

variable {supply : MeshSupply} {cell : CellType} {vertices : Array (Array α)}
  {connectivity : Array Nat}

theorem exists_build_iff :
    (∃ r, supply.build cell vertices connectivity = .ok r)
      ↔ Mesh.defect? cell vertices connectivity = none := by
  cases h : supply.build cell vertices connectivity with
  | ok r =>
      refine iff_of_true ⟨r, rfl⟩ (Option.eq_none_iff_forall_ne_some.2 fun e he => ?_)
      cases h.symm.trans (build_eq_error.2 he)
  | error e =>
      rw [build_eq_error.1 h]
      exact iff_of_false nofun nofun

/-- Points and indices are accepted as a mesh exactly if the indices are a whole number of
cells, all points have one dimension and every index names a point. Otherwise the first of
these conditions that fails is reported, with the first point of another dimension than
point zero or with the first index out of bounds and the cell it lies in. An accepted mesh
has the given points and indices, and whatever is read from it lies within bounds. -/
theorem build_outcomes [Zero α] [Add α] [Div α] [NatCast α] (supply : MeshSupply)
    (cell : CellType) (vertices : Array (Array α)) (connectivity : Array Nat) :
    let k := cell.vertexCount
    let mesh := supply.build cell vertices connectivity
    ((∃ r, mesh = .ok r) ↔ connectivity.size % k = 0
        ∧ (∀ v ∈ vertices, ∀ w ∈ vertices, v.size = w.size)
        ∧ ∀ i ∈ connectivity, i < vertices.size)
      ∧ (∀ length perCell, mesh = .error (.connectivityLength length perCell)
        ↔ connectivity.size % k ≠ 0 ∧ length = connectivity.size ∧ perCell = k)
      ∧ (∀ v d d₀, mesh = .error (.vertexDimension v d d₀)
        ↔ connectivity.size % k = 0 ∧ Mesh.FirstOfOtherDimension vertices v d d₀)
      ∧ (∀ c i n, mesh = .error (.indexOutOfBounds c i n)
        ↔ connectivity.size % k = 0 ∧ (∀ v ∈ vertices, ∀ w ∈ vertices, v.size = w.size)
          ∧ n = vertices.size ∧ Mesh.FirstOutOfBounds cell n connectivity c i)
      ∧ ∀ M supply', mesh = .ok (M, supply') → M.cell = cell ∧ M.vertices = vertices
        ∧ M.connectivity = connectivity ∧ M.ReadInBounds := by
  intro k mesh
  refine ⟨?_, fun length perCell => ?_, fun v d d₀ => ?_, fun c i n => ?_, fun M supply' hM => ?_⟩
  · exact exists_build_iff.trans Mesh.defect?_eq_none_iff
  · rw [build_eq_error, Mesh.defect?_eq_some]
    simp [k]
  · rw [build_eq_error, Mesh.defect?_eq_some]
    simp [k]
  · rw [build_eq_error, Mesh.defect?_eq_some]
    constructor
    · rintro (⟨-, h⟩ | ⟨-, _, _, _, h, -⟩ | ⟨hsize, huniform, _, _, h, hfirst⟩)
      · cases h
      · cases h
      · cases h
        exact ⟨hsize, huniform, rfl, hfirst⟩
    · rintro ⟨hsize, huniform, rfl, hfirst⟩
      exact .inr (.inr ⟨hsize, huniform, c, i, rfl, hfirst⟩)
  · obtain ⟨hbuild, -⟩ := build_eq_ok.1 hM
    obtain ⟨-, hcell, hvertices, hconnectivity⟩ := Mesh.build_eq_ok.1 hbuild
    exact ⟨hcell, hvertices, hconnectivity, M.readInBounds⟩

/-- Points on a line with too many indices, with a point of the plane among them, with an
index too large in the second cell, and with nothing wrong. -/
theorem build_outcomes_intervals :
    initial.build .interval #[#[(0 : Int)], #[1]] #[0, 1, 2]
        = .error (.connectivityLength 3 2)
      ∧ initial.build .interval #[#[(0 : Int)], #[1, 2], #[3]] #[0, 7]
        = .error (.vertexDimension 1 2 1)
      ∧ initial.build .interval #[#[(0 : Int)], #[1], #[2]] #[0, 1, 1, 3]
        = .error (.indexOutOfBounds 1 3 3)
      ∧ ∃ M supply', initial.build .interval #[#[(0 : Int)], #[1], #[2]] #[0, 1, 1, 2]
        = .ok (M, supply') ∧ M.ReadInBounds := by
  refine ⟨?_, ?_, ?_, ?_⟩
  · obtain ⟨-, hlength, -⟩ :=
      build_outcomes initial .interval #[#[(0 : Int)], #[1]] #[0, 1, 2]
    exact (hlength 3 2).2 ⟨by decide, rfl, rfl⟩
  · obtain ⟨-, -, hdimension, -⟩ :=
      build_outcomes initial .interval #[#[(0 : Int)], #[1, 2], #[3]] #[0, 7]
    refine (hdimension 1 2 1).2 ⟨by decide, #[0], #[1, 2], rfl, rfl, rfl, rfl, by decide, ?_⟩
    intro u hu x hx
    obtain rfl : u = 0 := by omega
    cases hx
    rfl
  · obtain ⟨-, -, -, hindex, -⟩ :=
      build_outcomes initial .interval #[#[(0 : Int)], #[1], #[2]] #[0, 1, 1, 3]
    refine (hindex 1 3 3).2 ⟨by decide, by decide, rfl, 3, rfl, by decide, by decide, by decide, ?_⟩
    intro q hq j hj
    obtain rfl | rfl | rfl : q = 0 ∨ q = 1 ∨ q = 2 := by omega
    all_goals
      cases hj
      decide
  · obtain ⟨haccepted, -, -, -, hmesh⟩ :=
      build_outcomes initial .interval #[#[(0 : Int)], #[1], #[2]] #[0, 1, 1, 2]
    obtain ⟨⟨M, supply'⟩, hM⟩ := haccepted.2 ⟨by decide, by decide, by decide⟩
    obtain ⟨-, -, -, hread⟩ := hmesh M supply' hM
    exact ⟨M, supply', hM, hread⟩

end MeshSupply

end NodalAlgebra
