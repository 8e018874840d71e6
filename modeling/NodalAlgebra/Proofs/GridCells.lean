import NodalAlgebra.Mesh.Grid
import NodalAlgebra.Mesh.Lemmas
import NodalAlgebra.Proofs.MeshHistory

/-!
# Cells of grids

The loops over the rows and the columns of a grid list its squares one after the other, so
that square `k` stands in column `k % nx` and row `k / nx` (`Grid.toList_squareCells`), and
the triangles that a square is split into follow each other
(`Grid.flatMap_splitSquare_squares`). Whether a rectangle and the unit square in triangles
have a mesh is decided by the number of vertices, and its cells are these
(`Grid.rectangle_cases`, `Grid.unitSquareTriangles_cases`).
-/

namespace NodalAlgebra

variable {α β : Type}

/-- A loop over columns within a loop over rows goes through the places row by row. -/
theorem flatMap_range_map_range (m n : Nat) (f : Nat → Nat → β) :
    ((List.range n).flatMap fun j => (List.range m).map fun i => f i j)
      = (List.range (m * n)).map fun k => f (k % m) (k / m) := by
  induction n with
  | zero => rfl
  | succ n ih =>
      have hrow : ∀ i ∈ List.range m, f i n = f ((m * n + i) % m) ((m * n + i) / m) := by
        intro i hi
        have hi := List.mem_range.1 hi
        rw [Nat.mul_add_mod, Nat.mod_eq_of_lt hi, Nat.mul_add_div (by omega),
          Nat.div_eq_of_lt hi, Nat.add_zero]
      rw [List.range_succ, List.flatMap_append, ih, Nat.mul_succ, List.range_add,
        List.map_append, List.map_map, List.flatMap_singleton, List.map_congr_left hrow]
      rfl

namespace Grid

variable {nx ny : Nat}

/-! ## Places -/

/-- The column and the row of a vertex. -/
def position (nx v : Nat) : Nat × Nat := (v % (nx + 1), v / (nx + 1))

theorem position_vertexIndex {i : Nat} (hi : i ≤ nx) (j : Nat) :
    position nx (vertexIndex nx i j) = (i, j) := by
  obtain ⟨hrow, hcolumn⟩ := (Nat.div_mod_unique (by omega : 0 < nx + 1)).2
    ⟨Nat.add_comm i ((nx + 1) * j), by omega⟩
  exact Prod.ext hcolumn hrow

theorem vertexIndex_position (nx v : Nat) :
    vertexIndex nx (position nx v).1 (position nx v).2 = v :=
  Nat.div_add_mod v (nx + 1)

theorem vertexIndex_lt {i j : Nat} (hi : i ≤ nx) (hj : j ≤ ny) :
    vertexIndex nx i j < (nx + 1) * (ny + 1) :=
  calc vertexIndex nx i j < (nx + 1) * (j + 1) := by rw [vertexIndex, Nat.mul_succ]; omega
    _ ≤ (nx + 1) * (ny + 1) := Nat.mul_le_mul_left _ (by omega)

/-- The column and the row of a square. -/
theorem column_lt_and_row_lt {k : Nat} (hk : k < nx * ny) : k % nx < nx ∧ k / nx < ny :=
  ⟨Nat.mod_lt _ (Nat.pos_of_ne_zero fun h => by simp [h] at hk), Nat.div_lt_of_lt_mul hk⟩

/-- In every column and row there is one square. -/
theorem exists_square {i j : Nat} (hi : i < nx) (hj : j < ny) :
    ∃ k < nx * ny, k % nx = i ∧ k / nx = j := by
  obtain ⟨hrow, hcolumn⟩ := (Nat.div_mod_unique (by omega : 0 < nx)).2
    ⟨Nat.add_comm i (nx * j), hi⟩
  refine ⟨nx * j + i, ?_, hcolumn, hrow⟩
  calc nx * j + i < nx * (j + 1) := by rw [Nat.mul_succ]; omega
    _ ≤ nx * ny := Nat.mul_le_mul_left _ hj

/-! ## Squares -/

/-- The squares of a grid, row by row. -/
def squares (nx ny : Nat) : List (List Nat) :=
  (List.range (nx * ny)).map fun k => squareCorners nx (k % nx) (k / nx)

theorem toList_squareCells (nx ny : Nat) :
    (squareCells nx ny).toList = (squares nx ny).flatten := by
  rw [squares, ← flatMap_range_map_range nx ny fun i j => squareCorners nx i j, squareCells]
  simp [List.flatMap_def, List.flatten_flatten, Function.comp_def]

theorem length_of_mem_squares {c : List Nat} (h : c ∈ squares nx ny) : c.length = 4 := by
  obtain ⟨k, -, rfl⟩ := List.mem_map.1 h
  rfl

theorem lt_of_mem_squareCells {v : Nat} (h : v ∈ squareCells nx ny) :
    v < (nx + 1) * (ny + 1) := by
  rw [← Array.mem_toList_iff, toList_squareCells] at h
  obtain ⟨c, hc, hv⟩ := List.mem_flatten.1 h
  obtain ⟨k, hk, rfl⟩ := List.mem_map.1 hc
  obtain ⟨hcolumn, hrow⟩ := column_lt_and_row_lt (List.mem_range.1 hk)
  simp only [squareCorners, List.mem_cons, List.not_mem_nil, or_false] at hv
  rcases hv with rfl | rfl | rfl | rfl <;> exact vertexIndex_lt (by omega) (by omega)

/-- Vertices are listed row by row, each at its column and row. -/
theorem toList_squareVertices [Add α] [Neg α] [Mul α] [NatCast α] (nx ny : Nat) (h x y : α) :
    (squareVertices nx ny h x y).toList = (List.range ((nx + 1) * (ny + 1))).map fun v =>
      #[x + ((position nx v).1 : α) * h, y + -((position nx v).2 : α) * h] := by
  simp only [position]
  rw [← flatMap_range_map_range (nx + 1) (ny + 1) fun i j =>
    #[x + (i : α) * h, y + -(j : α) * h], squareVertices]
  simp

theorem size_squareVertices [Add α] [Neg α] [Mul α] [NatCast α] (nx ny : Nat) (h x y : α) :
    (squareVertices nx ny h x y).size = (nx + 1) * (ny + 1) := by
  rw [← Array.length_toList, toList_squareVertices, List.length_map, List.length_range]

theorem cells_of_squareCells {M : Mesh α} (hcell : M.cell = .quadrilateral)
    (h : M.connectivity = squareCells nx ny) : M.cells = squares nx ny := by
  rw [Mesh.cells, hcell, h, toList_squareCells]
  exact Mesh.chunks_flatten (by decide) fun _ => length_of_mem_squares

/-- The squares of a grid over its vertices are always accepted as a mesh. -/
theorem exists_build_squares [Add α] [Neg α] [Mul α] [NatCast α] (supply : MeshSupply)
    (nx ny : Nat) (h x y : α) :
    ∃ M, supply.build .quadrilateral (squareVertices nx ny h x y) (squareCells nx ny)
        = .ok (M, ⟨supply.next + 1⟩)
      ∧ M.cell = .quadrilateral ∧ M.vertices = squareVertices nx ny h x y
      ∧ M.connectivity = squareCells nx ny := by
  have hvertices := toList_squareVertices nx ny h x y
  have hdim : ∀ v ∈ squareVertices nx ny h x y, v.size = 2 := by
    intro v hv
    rw [← Array.mem_toList_iff, hvertices] at hv
    obtain ⟨k, -, rfl⟩ := List.mem_map.1 hv
    rfl
  let M : Mesh α :=
    { id := ⟨supply.next⟩
      cell := .quadrilateral
      vertices := squareVertices nx ny h x y
      connectivity := squareCells nx ny
      wholeCells := by
        rw [← Array.length_toList, toList_squareCells,
          length_flatten_block fun _ => length_of_mem_squares]
        exact Nat.mul_mod_left _ _
      uniform := fun v hv w hw => (hdim v hv).trans (hdim w hw).symm
      inRange := by
        intro v hv
        rw [size_squareVertices]
        exact lt_of_mem_squareCells hv }
  exact ⟨M, MeshSupply.build_eq_ok.2 ⟨Mesh.build_eq_ok.2 ⟨rfl, rfl, rfl, rfl⟩, rfl⟩, rfl, rfl, rfl⟩

/-- Whether there is a rectangle is decided by the number of its vertices, which has to be a
size. Nothing is refused. -/
theorem rectangle_cases [Add α] [Neg α] [Mul α] [Div α] [NatCast α] (supply : MeshSupply)
    (unitLength x y : α) {unitsX unitsY cellsPerUnit : Nat} (hX : 1 ≤ unitsX) (hY : 1 ≤ unitsY)
    (hcells : 1 ≤ cellsPerUnit) (hnx : unitsX * cellsPerUnit = nx)
    (hny : unitsY * cellsPerUnit = ny) :
    ((nx + 1) * (ny + 1) < Size.limit
      ∧ ∃ M, rectangle supply unitLength unitsX unitsY cellsPerUnit x y
          = .ok (M, ⟨supply.next + 1⟩)
        ∧ M.cell = .quadrilateral
        ∧ M.vertices = squareVertices nx ny (unitLength / (cellsPerUnit : α)) x y
        ∧ M.cells = squares nx ny)
    ∨ (Size.limit ≤ (nx + 1) * (ny + 1)
      ∧ rectangle supply unitLength unitsX unitsY cellsPerUnit x y
        = .error (.fault .overflow)) := by
  have hpositive : ¬ (cellsPerUnit = 0 ∨ unitsX = 0 ∨ unitsY = 0) := by omega
  by_cases hfits : (nx + 1) * (ny + 1) < Size.limit
  · refine .inl ⟨hfits, ?_⟩
    have hcolumns : nx + 1 < Size.limit :=
      Nat.lt_of_le_of_lt (Nat.le_mul_of_pos_right _ ny.succ_pos) hfits
    have hrows : ny + 1 < Size.limit :=
      Nat.lt_of_le_of_lt (Nat.le_mul_of_pos_left _ nx.succ_pos) hfits
    have hmesh : rectangle supply unitLength unitsX unitsY cellsPerUnit x y
        = Failure.ofRefusal (supply.build .quadrilateral
          (squareVertices nx ny (unitLength / (cellsPerUnit : α)) x y) (squareCells nx ny)) := by
      simp only [rectangle, if_neg hpositive,
        Size.mul?_eq_ok.2 ⟨hnx ▸ Nat.lt_of_succ_lt hcolumns, hnx⟩,
        Size.mul?_eq_ok.2 ⟨hny ▸ Nat.lt_of_succ_lt hrows, hny⟩,
        Size.add?_eq_ok.2 ⟨hcolumns, rfl⟩, Size.add?_eq_ok.2 ⟨hrows, rfl⟩,
        Size.mul?_eq_ok.2 ⟨hfits, rfl⟩, Failure.ofFault_ok, ok_bind]
    obtain ⟨M, hM, hcell, hvertices, hconnectivity⟩ := exists_build_squares supply nx ny
      (unitLength / (cellsPerUnit : α)) x y
    exact ⟨M, by rw [hmesh, hM]; rfl, hcell, hvertices, cells_of_squareCells hcell hconnectivity⟩
  · refine .inr ⟨Nat.le_of_not_lt hfits, ?_⟩
    -- one of the five numbers on the way to the number of vertices is no size
    simp only [rectangle, if_neg hpositive, Size.mul?, Size.add?, Size.ofNat?, hnx, hny]
    by_cases hcolumns : nx < Size.limit <;> by_cases hrows : ny < Size.limit <;>
      by_cases hcolumns' : nx + 1 < Size.limit <;> by_cases hrows' : ny + 1 < Size.limit <;>
      simp [hcolumns, hrows, hcolumns', hrows', hfits]

/-! ## Triangles -/

/-- The corners of the two triangles of a square, the one below the diagonal first. -/
def triangleCorners (nx half i j : Nat) : List Nat :=
  if half = 0 then
    [vertexIndex nx i (j + 1), vertexIndex nx (i + 1) (j + 1), vertexIndex nx (i + 1) j]
  else [vertexIndex nx i (j + 1), vertexIndex nx (i + 1) j, vertexIndex nx i j]

/-- The triangles of a grid, those of one square after those of the other. -/
def triangles (nx ny : Nat) : List (List Nat) :=
  (List.range (2 * (nx * ny))).map fun k =>
    triangleCorners nx (k % 2) (k / 2 % nx) (k / 2 / nx)

theorem flatMap_splitSquare_squares (nx ny : Nat) :
    (squares nx ny).flatMap splitSquare = (triangles nx ny).flatten := by
  have hsplit : ∀ i j, splitSquare (squareCorners nx i j)
      = ((List.range 2).map fun half => triangleCorners nx half i j).flatten :=
    fun _ _ => rfl
  rw [triangles, ← flatMap_range_map_range 2 (nx * ny) fun half k =>
    triangleCorners nx half (k % nx) (k / nx), squares, List.flatMap_map]
  simp only [hsplit, List.flatMap_def, List.flatten_flatten, List.map_map]
  rfl

theorem length_of_mem_triangles {c : List Nat} (h : c ∈ triangles nx ny) : c.length = 3 := by
  obtain ⟨k, -, rfl⟩ := List.mem_map.1 h
  unfold triangleCorners
  split <;> rfl

/-- The squares of the unit square are a mesh, and so are their triangles, unless the number
of vertices is no size. Nothing is refused. -/
theorem unitSquareTriangles_cases [Zero α] [One α] [Add α] [Neg α] [Mul α] [Div α] [NatCast α]
    (supply : MeshSupply) {n : Nat} (hn : 1 ≤ n) :
    ((n + 1) * (n + 1) < Size.limit
      ∧ ∃ S M : Mesh α, unitSquare supply n = .ok (S, ⟨supply.next + 1⟩)
        ∧ unitSquareTriangles supply n = .ok (M, ⟨supply.next + 2⟩)
        ∧ S.vertices = squareVertices n n (1 / (n : α)) 0 1 ∧ S.cells = squares n n
        ∧ M.cell = .triangle ∧ M.vertices = S.vertices ∧ M.cells = triangles n n)
    ∨ (Size.limit ≤ (n + 1) * (n + 1)
      ∧ (unitSquareTriangles supply n : Except _ (Mesh α × MeshSupply))
        = .error (.fault .overflow)) := by
  rcases rectangle_cases supply (1 : α) 0 1 (Nat.le_refl 1) (Nat.le_refl 1) hn (Nat.one_mul n)
    (Nat.one_mul n) with ⟨hfits, S, hS, hcell, hvertices, hcells⟩ | ⟨hlarge, herror⟩
  · refine .inl ⟨hfits, ?_⟩
    obtain ⟨M, hM⟩ := exists_splitSquares ⟨supply.next + 1⟩ hcell
    obtain ⟨hbuild, -⟩ := MeshSupply.build_eq_ok.1 hM
    obtain ⟨-, hMcell, hMvertices, hMconnectivity⟩ := Mesh.build_eq_ok.1 hbuild
    have hmesh : unitSquareTriangles supply n = .ok (M, ⟨supply.next + 2⟩) := by
      rw [unitSquareTriangles, unitSquare, hS, ok_bind]
      exact congrArg Failure.ofRefusal hM
    refine ⟨S, M, hS, hmesh, hvertices, hcells, hMcell, hMvertices, ?_⟩
    rw [Mesh.cells, hMcell, hMconnectivity, hcells, flatMap_splitSquare_squares]
    exact Mesh.chunks_flatten (by decide) fun _ => length_of_mem_triangles
  · exact .inr ⟨hlarge, unitSquareTriangles_eq_error.2 herror⟩

end Grid

end NodalAlgebra
