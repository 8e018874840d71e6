import Mathlib.Tactic.Ring
import NodalAlgebra.Proofs.GridCells

/-!
# Conforming grids

The cells of a grid fit together: a directed edge belongs to one cell only, and the cell
across it has the reverse edge, unless the edge lies on the boundary of the grid
(`Grid.Conforming`). What this takes is a matter of the pieces that a square is cut into and
of those of its neighbours (`Grid.Tiling`), whose corners are given by column and row. A
square in one piece and a square in two triangles are cut so
(`Grid.tiling_squares`, `Grid.tiling_triangles`), which makes the rectangles and the unit
squares of the library conforming (`Grid.grids_conform`).
-/

namespace NodalAlgebra

variable {α β γ : Type}

/-! ## Edges -/

/-- The directed edges of a cell, from each corner to the next one and from the last one to
the first. -/
def Mesh.edges (corners : List β) : List (β × β) :=
  corners.zip (corners.tail ++ corners.take 1)

theorem Mesh.edges_map (f : β → γ) (corners : List β) :
    edges (corners.map f) = (edges corners).map (Prod.map f f) := by
  rw [edges, edges, ← List.map_tail, ← List.map_take, ← List.map_append, List.zip_map]

namespace Grid

open Mesh (edges)

variable {nx ny m : Nat}

/-- Two places on one side of a grid. -/
def OnBoundary (nx ny : Nat) (p q : Nat × Nat) : Prop :=
  (p.1 = 0 ∧ q.1 = 0) ∨ (p.1 = nx ∧ q.1 = nx) ∨ (p.2 = 0 ∧ q.2 = 0) ∨ (p.2 = ny ∧ q.2 = ny)

theorem onBoundary_comm {p q : Nat × Nat} : OnBoundary nx ny p q ↔ OnBoundary nx ny q p := by
  simp only [OnBoundary, and_comm]

/-- A step along a row is on the boundary in the first and in the last row. -/
theorem onBoundary_row {i j : Nat} :
    OnBoundary nx ny (i, j) (i + 1, j) ↔ j = 0 ∨ j = ny := by
  unfold OnBoundary
  omega

/-- A step along a column is on the boundary in the first and in the last column. -/
theorem onBoundary_column {i j : Nat} :
    OnBoundary nx ny (i, j) (i, j + 1) ↔ i = 0 ∨ i = nx := by
  unfold OnBoundary
  omega

/-- The diagonal of a square is nowhere on the boundary. -/
theorem not_onBoundary_diagonal {i j : Nat} :
    ¬ OnBoundary nx ny (i, j + 1) (i + 1, j) := by
  unfold OnBoundary
  omega

/-- Twice the area that is enclosed by going around some places counterclockwise, where
columns are counted to the right and rows downwards. -/
def doubledArea (corners : List (Nat × Nat)) : Int :=
  ((edges corners).map fun e => (e.2.1 : Int) * e.1.2 - (e.1.1 : Int) * e.2.2).sum

/-- The cells of a mesh over the vertices of a grid fit together, and their corners are
different and in counterclockwise order. -/
structure Conforming (nx ny : Nat) (M : Mesh α) : Prop where
  nodup : ∀ c ∈ M.cells, c.Nodup
  counterclockwise : ∀ c ∈ M.cells, 0 < doubledArea (c.map (position nx))
  /-- A directed edge occurs in at most one cell. -/
  edge_once : ∀ (k l : Nat) (c d : List Nat) (e : Nat × Nat), M.cells[k]? = some c →
    M.cells[l]? = some d → e ∈ edges c → e ∈ edges d → k = l
  /-- The reverse of a directed edge occurs exactly in the interior of the grid. -/
  reverse_iff : ∀ c ∈ M.cells, ∀ a b, (a, b) ∈ edges c →
    ((∃ d ∈ M.cells, (b, a) ∈ edges d) ↔ ¬ OnBoundary nx ny (position nx a) (position nx b))

/-! ## Pieces of squares -/

/-- The vertex at a place. -/
def vertexAt (nx : Nat) (p : Nat × Nat) : Nat := vertexIndex nx p.1 p.2

/-- Each square of a grid is cut into `m` pieces, which fit to each other and to those of the
neighbours. -/
structure Tiling (nx ny m : Nat) (piece : Nat → Nat → Nat → List (Nat × Nat)) : Prop where
  column_le : ∀ s < m, ∀ i < nx, ∀ j < ny, ∀ p ∈ piece s i j, p.1 ≤ nx
  nodup : ∀ s < m, ∀ i < nx, ∀ j < ny, (piece s i j).Nodup
  counterclockwise : ∀ s < m, ∀ i < nx, ∀ j < ny, 0 < doubledArea (piece s i j)
  edge_once : ∀ s < m, ∀ t < m, ∀ i j k l e, e ∈ edges (piece s i j) → e ∈ edges (piece t k l) →
    s = t ∧ i = k ∧ j = l
  reverse_iff : ∀ s < m, ∀ i < nx, ∀ j < ny, ∀ p q, (p, q) ∈ edges (piece s i j) →
    ((∃ t < m, ∃ k < nx, ∃ l < ny, (q, p) ∈ edges (piece t k l)) ↔ ¬ OnBoundary nx ny p q)

/-- The pieces of all squares, those of one square after those of the other. -/
def pieces (nx ny m : Nat) (piece : Nat → Nat → Nat → List (Nat × Nat)) : List (List Nat) :=
  (List.range (m * (nx * ny))).map fun k =>
    (piece (k % m) (k / m % nx) (k / m / nx)).map (vertexAt nx)

theorem map_position_vertexAt {corners : List (Nat × Nat)} (h : ∀ p ∈ corners, p.1 ≤ nx) :
    (corners.map (vertexAt nx)).map (position nx) = corners := by
  rw [List.map_map]
  exact (List.map_congr_left fun p hp => position_vertexIndex (h p hp) p.2).trans (List.map_id _)

/-- The edges of a piece go between the vertices at its corners. -/
theorem mem_edges_vertexAt {corners : List (Nat × Nat)} (h : ∀ p ∈ corners, p.1 ≤ nx)
    {a b : Nat} :
    (a, b) ∈ edges (corners.map (vertexAt nx))
      ↔ (position nx a, position nx b) ∈ edges corners := by
  constructor
  · intro hab
    have hab := List.mem_map_of_mem (f := Prod.map (position nx) (position nx)) hab
    rwa [← Mesh.edges_map, map_position_vertexAt h] at hab
  · intro hab
    have hab := List.mem_map_of_mem (f := Prod.map (vertexAt nx) (vertexAt nx)) hab
    rw [← Mesh.edges_map] at hab
    simpa only [Prod.map, vertexAt, vertexIndex_position] using hab

/-- The square and the piece of it that a piece is. -/
theorem place_of_lt {k : Nat} (hk : k < m * (nx * ny)) :
    k % m < m ∧ k / m % nx < nx ∧ k / m / nx < ny := by
  obtain ⟨hs, hsquare⟩ := column_lt_and_row_lt hk
  exact ⟨hs, column_lt_and_row_lt hsquare⟩

theorem exists_piece {s i j : Nat} (hs : s < m) (hi : i < nx) (hj : j < ny) :
    ∃ k < m * (nx * ny), k % m = s ∧ k / m % nx = i ∧ k / m / nx = j := by
  obtain ⟨l, hl, rfl, rfl⟩ := exists_square hi hj
  obtain ⟨k, hk, rfl, rfl⟩ := exists_square hs hl
  exact ⟨k, hk, rfl, rfl, rfl⟩

theorem eq_of_place_eq {k l : Nat} (hs : k % m = l % m) (hi : k / m % nx = l / m % nx)
    (hj : k / m / nx = l / m / nx) : k = l := by
  rw [← Nat.div_add_mod k m, ← Nat.div_add_mod l m, hs, ← Nat.div_add_mod (k / m) nx,
    ← Nat.div_add_mod (l / m) nx, hi, hj]

/-- Pieces that fit to those of the same square and of its neighbours fit together. -/
theorem Tiling.conforming {piece : Nat → Nat → Nat → List (Nat × Nat)}
    (h : Tiling nx ny m piece) {M : Mesh α} (hM : M.cells = pieces nx ny m piece) :
    Conforming nx ny M := by
  have hmem : ∀ c, c ∈ M.cells ↔ ∃ s < m, ∃ i < nx, ∃ j < ny,
      (piece s i j).map (vertexAt nx) = c := by
    intro c
    rw [hM, pieces, List.mem_map]
    constructor
    · rintro ⟨k, hk, rfl⟩
      obtain ⟨hs, hi, hj⟩ := place_of_lt (List.mem_range.1 hk)
      exact ⟨_, hs, _, hi, _, hj, rfl⟩
    · rintro ⟨s, hs, i, hi, j, hj, rfl⟩
      obtain ⟨k, hk, rfl, rfl, rfl⟩ := exists_piece hs hi hj
      exact ⟨k, List.mem_range.2 hk, rfl⟩
  have hget : ∀ k c, M.cells[k]? = some c → k < m * (nx * ny)
      ∧ (piece (k % m) (k / m % nx) (k / m / nx)).map (vertexAt nx) = c := by
    intro k c hc
    obtain ⟨hk, rfl⟩ := List.getElem?_eq_some_iff.1 hc
    simp only [hM, pieces, List.length_map, List.length_range, List.getElem_map,
      List.getElem_range] at hk ⊢
    exact ⟨hk, trivial⟩
  refine ⟨?_, ?_, ?_, ?_⟩
  · intro c hc
    obtain ⟨s, hs, i, hi, j, hj, rfl⟩ := (hmem c).1 hc
    refine List.Nodup.of_map (position nx) ?_
    rw [map_position_vertexAt (h.column_le s hs i hi j hj)]
    exact h.nodup s hs i hi j hj
  · intro c hc
    obtain ⟨s, hs, i, hi, j, hj, rfl⟩ := (hmem c).1 hc
    rw [map_position_vertexAt (h.column_le s hs i hi j hj)]
    exact h.counterclockwise s hs i hi j hj
  · rintro k l c d ⟨a, b⟩ hc hd hec hed
    obtain ⟨hk, rfl⟩ := hget k c hc
    obtain ⟨hl, rfl⟩ := hget l d hd
    obtain ⟨hs, hi, hj⟩ := place_of_lt hk
    obtain ⟨ht, hi', hj'⟩ := place_of_lt hl
    rw [mem_edges_vertexAt (h.column_le _ hs _ hi _ hj)] at hec
    rw [mem_edges_vertexAt (h.column_le _ ht _ hi' _ hj')] at hed
    obtain ⟨hst, hii', hjj'⟩ := h.edge_once _ hs _ ht _ _ _ _ _ hec hed
    exact eq_of_place_eq hst hii' hjj'
  · intro c hc a b hab
    obtain ⟨s, hs, i, hi, j, hj, rfl⟩ := (hmem c).1 hc
    rw [mem_edges_vertexAt (h.column_le s hs i hi j hj)] at hab
    rw [← h.reverse_iff s hs i hi j hj _ _ hab]
    constructor
    · rintro ⟨d, hd, hba⟩
      obtain ⟨t, ht, k, hk, l, hl, rfl⟩ := (hmem d).1 hd
      rw [mem_edges_vertexAt (h.column_le t ht k hk l hl)] at hba
      exact ⟨t, ht, k, hk, l, hl, hba⟩
    · rintro ⟨t, ht, k, hk, l, hl, hba⟩
      refine ⟨_, (hmem _).2 ⟨t, ht, k, hk, l, hl, rfl⟩, ?_⟩
      rwa [mem_edges_vertexAt (h.column_le t ht k hk l hl)]

/-! ## Squares -/

/-- The corners of a square, which is in one piece, from the bottom left one on. -/
def squarePlaces (_ i j : Nat) : List (Nat × Nat) :=
  [(i, j + 1), (i + 1, j + 1), (i + 1, j), (i, j)]

theorem squares_eq_pieces (nx ny : Nat) : squares nx ny = pieces nx ny 1 squarePlaces := by
  simp only [squares, pieces, Nat.one_mul, Nat.mod_one, Nat.div_one]
  rfl

/-- The edges of a square: below, on the right, above and on the left. -/
theorem mem_edges_squarePlaces {s i j a b c d : Nat} :
    ((a, b), (c, d)) ∈ edges (squarePlaces s i j)
      ↔ (a = i ∧ b = j + 1 ∧ c = i + 1 ∧ d = j + 1) ∨ (a = i + 1 ∧ b = j + 1 ∧ c = i + 1 ∧ d = j)
        ∨ (a = i + 1 ∧ b = j ∧ c = i ∧ d = j) ∨ (a = i ∧ b = j ∧ c = i ∧ d = j + 1) := by
  simp [edges, squarePlaces, and_assoc]

theorem tiling_squares (nx ny : Nat) : Tiling nx ny 1 squarePlaces := by
  refine ⟨?_, ?_, ?_, ?_, ?_⟩
  · intro s _ i hi j _ p hp
    simp only [squarePlaces, List.mem_cons, List.not_mem_nil, or_false] at hp
    rcases hp with rfl | rfl | rfl | rfl <;> simp only <;> omega
  · intro s _ i _ j _
    simp [squarePlaces]
  · intro s _ i _ j _
    have harea : doubledArea (squarePlaces s i j) = 2 := by
      simp [doubledArea, edges, squarePlaces]
      ring
    rw [harea]
    decide
  · rintro s hs t ht i j k l ⟨⟨a, b⟩, c, d⟩ he he'
    rw [mem_edges_squarePlaces] at he he'
    rcases he with ⟨rfl, rfl, rfl, rfl⟩ | ⟨rfl, rfl, rfl, rfl⟩ | ⟨rfl, rfl, rfl, rfl⟩
      | ⟨rfl, rfl, rfl, rfl⟩ <;> omega
  · rintro s hs i hi j hj ⟨a, b⟩ ⟨c, d⟩ he
    simp only [mem_edges_squarePlaces] at he ⊢
    rcases he with ⟨rfl, rfl, rfl, rfl⟩ | ⟨rfl, rfl, rfl, rfl⟩ | ⟨rfl, rfl, rfl, rfl⟩
      | ⟨rfl, rfl, rfl, rfl⟩
    · rw [onBoundary_row]
      refine ⟨fun ⟨_, _, k, hk, l, hl, h⟩ => by omega, fun h => ?_⟩
      exact ⟨0, Nat.one_pos, a, hi, j + 1, by omega, by omega⟩
    · rw [onBoundary_comm, onBoundary_column]
      refine ⟨fun ⟨_, _, k, hk, l, hl, h⟩ => by omega, fun h => ?_⟩
      exact ⟨0, Nat.one_pos, i + 1, by omega, d, hj, by omega⟩
    · rw [onBoundary_comm, onBoundary_row]
      refine ⟨fun ⟨_, _, k, hk, l, hl, h⟩ => by omega, fun h => ?_⟩
      exact ⟨0, Nat.one_pos, c, hi, d - 1, by omega, by omega⟩
    · rw [onBoundary_column]
      refine ⟨fun ⟨_, _, k, hk, l, hl, h⟩ => by omega, fun h => ?_⟩
      exact ⟨0, Nat.one_pos, c - 1, by omega, b, hj, by omega⟩

/-! ## Triangles -/

/-- The corners of the triangles of a square, the one below the diagonal first. -/
def trianglePlaces (half i j : Nat) : List (Nat × Nat) :=
  if half = 0 then [(i, j + 1), (i + 1, j + 1), (i + 1, j)] else [(i, j + 1), (i + 1, j), (i, j)]

theorem triangles_eq_pieces (nx ny : Nat) : triangles nx ny = pieces nx ny 2 trianglePlaces := by
  refine List.map_congr_left fun k _ => ?_
  unfold triangleCorners trianglePlaces
  split <;> rfl

/-- The edges of the two triangles: below, on the right and along the diagonal, and along the
diagonal, above and on the left. -/
theorem mem_edges_trianglePlaces {s i j a b c d : Nat} :
    ((a, b), (c, d)) ∈ edges (trianglePlaces s i j)
      ↔ (s = 0 ∧ ((a = i ∧ b = j + 1 ∧ c = i + 1 ∧ d = j + 1)
          ∨ (a = i + 1 ∧ b = j + 1 ∧ c = i + 1 ∧ d = j)
          ∨ (a = i + 1 ∧ b = j ∧ c = i ∧ d = j + 1)))
        ∨ (s ≠ 0 ∧ ((a = i ∧ b = j + 1 ∧ c = i + 1 ∧ d = j)
          ∨ (a = i + 1 ∧ b = j ∧ c = i ∧ d = j)
          ∨ (a = i ∧ b = j ∧ c = i ∧ d = j + 1))) := by
  unfold trianglePlaces
  split <;> simp [edges, and_assoc, *]

theorem tiling_triangles (nx ny : Nat) : Tiling nx ny 2 trianglePlaces := by
  refine ⟨?_, ?_, ?_, ?_, ?_⟩
  · intro s _ i hi j _ p hp
    unfold trianglePlaces at hp
    split at hp <;> simp only [List.mem_cons, List.not_mem_nil, or_false] at hp <;>
      rcases hp with rfl | rfl | rfl <;> simp only <;> omega
  · intro s _ i _ j _
    unfold trianglePlaces
    split <;> simp
  · intro s _ i _ j _
    have harea : doubledArea (trianglePlaces s i j) = 1 := by
      unfold trianglePlaces
      split
      · simp [doubledArea, edges]
        ring
      · simp [doubledArea, edges]
        ring
    rw [harea]
    decide
  · rintro s hs t ht i j k l ⟨⟨a, b⟩, c, d⟩ he he'
    rw [mem_edges_trianglePlaces] at he he'
    rcases he with ⟨rfl, ⟨rfl, rfl, rfl, rfl⟩ | ⟨rfl, rfl, rfl, rfl⟩ | ⟨rfl, rfl, rfl, rfl⟩⟩
      | ⟨hs', ⟨rfl, rfl, rfl, rfl⟩ | ⟨rfl, rfl, rfl, rfl⟩ | ⟨rfl, rfl, rfl, rfl⟩⟩ <;> omega
  · rintro s hs i hi j hj ⟨a, b⟩ ⟨c, d⟩ he
    simp only [mem_edges_trianglePlaces] at he ⊢
    rcases he with ⟨rfl, ⟨rfl, rfl, rfl, rfl⟩ | ⟨rfl, rfl, rfl, rfl⟩ | ⟨rfl, rfl, rfl, rfl⟩⟩
      | ⟨hs', ⟨rfl, rfl, rfl, rfl⟩ | ⟨rfl, rfl, rfl, rfl⟩ | ⟨rfl, rfl, rfl, rfl⟩⟩
    · rw [onBoundary_row]
      refine ⟨fun ⟨_, _, k, hk, l, hl, h⟩ => by omega, fun h => ?_⟩
      exact ⟨1, Nat.one_lt_two, a, hi, j + 1, by omega, by omega⟩
    · rw [onBoundary_comm, onBoundary_column]
      refine ⟨fun ⟨_, _, k, hk, l, hl, h⟩ => by omega, fun h => ?_⟩
      exact ⟨1, Nat.one_lt_two, i + 1, by omega, d, hj, by omega⟩
    · refine iff_of_true ⟨1, Nat.one_lt_two, c, hi, b, hj, by omega⟩ ?_
      rw [onBoundary_comm]
      exact not_onBoundary_diagonal
    · exact iff_of_true ⟨0, Nat.two_pos, a, hi, d, hj, by omega⟩ not_onBoundary_diagonal
    · rw [onBoundary_comm, onBoundary_row]
      refine ⟨fun ⟨_, _, k, hk, l, hl, h⟩ => by omega, fun h => ?_⟩
      exact ⟨0, Nat.two_pos, c, hi, d - 1, by omega, by omega⟩
    · rw [onBoundary_column]
      refine ⟨fun ⟨_, _, k, hk, l, hl, h⟩ => by omega, fun h => ?_⟩
      exact ⟨0, Nat.two_pos, c - 1, by omega, b, hj, by omega⟩

/-! ## Meshes -/

/-- A mesh over the vertices of a grid whose cells are the squares of the grid. -/
structure CutInSquares (nx ny : Nat) (M : Mesh α) : Prop where
  cell_eq : M.cell = .quadrilateral
  size_vertices : M.vertices.size = (nx + 1) * (ny + 1)
  cellCount_eq : M.cellCount = nx * ny
  vertex_used : ∀ v < M.vertices.size, ∃ c ∈ M.cells, v ∈ c
  /-- A cell goes around one square counterclockwise, from the bottom left corner on. -/
  corners : ∀ c ∈ M.cells, ∃ i < nx, ∃ j < ny,
    c.map (position nx) = [(i, j + 1), (i + 1, j + 1), (i + 1, j), (i, j)]
  square_once : ∀ i < nx, ∀ j < ny, ∃! k : Nat, ∃ c : List Nat, M.cells[k]? = some c
    ∧ c.map (position nx) = [(i, j + 1), (i + 1, j + 1), (i + 1, j), (i, j)]
  conforming : Conforming nx ny M

/-- A mesh over the vertices of a grid whose cells are the squares of the grid, each cut in
two triangles. -/
structure CutInTriangles (nx ny : Nat) (S M : Mesh α) : Prop where
  cell_eq : M.cell = .triangle
  vertices_eq : M.vertices = S.vertices
  cellCount_eq : M.cellCount = 2 * (nx * ny)
  /-- The two triangles of a square are on either side of its diagonal. -/
  halves : ∀ k < nx * ny, ∃ a b c d, S.cells[k]? = some [a, b, c, d]
    ∧ M.cells[2 * k]? = some [a, b, c] ∧ M.cells[2 * k + 1]? = some [a, c, d]
  conforming : Conforming nx ny M

theorem map_position_squareCorners {i : Nat} (hi : i < nx) (j : Nat) :
    (squareCorners nx i j).map (position nx)
      = [(i, j + 1), (i + 1, j + 1), (i + 1, j), (i, j)] := by
  simp only [squareCorners, List.map_cons, List.map_nil, position_vertexIndex hi.le,
    position_vertexIndex (Nat.succ_le_of_lt hi)]

theorem getElem?_squares {k : Nat} {c : List Nat} :
    (squares nx ny)[k]? = some c ↔ k < nx * ny ∧ squareCorners nx (k % nx) (k / nx) = c := by
  rw [squares, List.getElem?_eq_some_iff]
  simp

/-- Every vertex of a grid is a corner of a square. -/
theorem exists_mem_squares (hnx : 0 < nx) (hny : 0 < ny) {v : Nat}
    (hv : v < (nx + 1) * (ny + 1)) : ∃ c ∈ squares nx ny, v ∈ c := by
  obtain ⟨hcolumn, hrow⟩ := column_lt_and_row_lt hv
  obtain ⟨i, hi, hi'⟩ : ∃ i < nx, v % (nx + 1) = i ∨ v % (nx + 1) = i + 1 :=
    ⟨min (v % (nx + 1)) (nx - 1), by omega, by omega⟩
  obtain ⟨j, hj, hj'⟩ : ∃ j < ny, v / (nx + 1) = j ∨ v / (nx + 1) = j + 1 :=
    ⟨min (v / (nx + 1)) (ny - 1), by omega, by omega⟩
  obtain ⟨k, hk, rfl, rfl⟩ := exists_square hi hj
  refine ⟨_, List.mem_of_getElem? (getElem?_squares.2 ⟨hk, rfl⟩), ?_⟩
  rw [← vertexIndex_position nx v, position, squareCorners]
  rcases hi' with hi' | hi' <;> rcases hj' with hj' | hj' <;> simp [hi', hj']

theorem cutInSquares (hnx : 0 < nx) (hny : 0 < ny) {M : Mesh α} (hcell : M.cell = .quadrilateral)
    (hsize : M.vertices.size = (nx + 1) * (ny + 1)) (hcells : M.cells = squares nx ny) :
    CutInSquares nx ny M := by
  refine ⟨hcell, hsize, ?_, fun v hv => ?_, fun c hc => ?_, fun i hi j hj => ?_,
    (tiling_squares nx ny).conforming (hcells.trans (squares_eq_pieces nx ny))⟩
  · rw [← Mesh.length_cells, hcells, squares, List.length_map, List.length_range]
  · rw [hcells]
    exact exists_mem_squares hnx hny (hsize ▸ hv)
  · rw [hcells] at hc
    obtain ⟨k, hk, rfl⟩ := List.mem_map.1 hc
    obtain ⟨hcolumn, hrow⟩ := column_lt_and_row_lt (List.mem_range.1 hk)
    exact ⟨_, hcolumn, _, hrow, map_position_squareCorners hcolumn _⟩
  · obtain ⟨k, hk, rfl, rfl⟩ := exists_square hi hj
    refine ⟨k, ⟨_, by rw [hcells]; exact getElem?_squares.2 ⟨hk, rfl⟩,
      map_position_squareCorners hi _⟩, ?_⟩
    rintro l ⟨c, hc, hplaces⟩
    rw [hcells] at hc
    obtain ⟨hl, rfl⟩ := getElem?_squares.1 hc
    rw [map_position_squareCorners (column_lt_and_row_lt hl).1] at hplaces
    simp only [List.cons.injEq, Prod.mk.injEq] at hplaces
    rw [← Nat.div_add_mod l nx, ← Nat.div_add_mod k nx, hplaces.1.1, hplaces.2.2.2.1.2]

theorem cutInTriangles {S M : Mesh α} (hcell : M.cell = .triangle)
    (hvertices : M.vertices = S.vertices) (hS : S.cells = squares nx ny)
    (hM : M.cells = triangles nx ny) : CutInTriangles nx ny S M := by
  refine ⟨hcell, hvertices, ?_, fun k hk => ?_,
    (tiling_triangles nx ny).conforming (hM.trans (triangles_eq_pieces nx ny))⟩
  · rw [← Mesh.length_cells, hM, triangles, List.length_map, List.length_range]
  · have hfirst : 2 * k % 2 = 0 ∧ 2 * k / 2 = k := by omega
    have hsecond : (2 * k + 1) % 2 = 1 ∧ (2 * k + 1) / 2 = k := by omega
    refine ⟨_, _, _, _, by rw [hS]; exact getElem?_squares.2 ⟨hk, rfl⟩, ?_, ?_⟩
    · rw [hM, triangles, List.getElem?_map, List.getElem?_range (by omega), Option.map_some,
        hfirst.1, hfirst.2]
      rfl
    · rw [hM, triangles, List.getElem?_map, List.getElem?_range (by omega), Option.map_some,
        hsecond.1, hsecond.2]
      rfl

/-- The generated meshes of squares and of triangles. A rectangle has a mesh exactly if the
number of its vertices is a size, and none is refused; its vertices stand side by side in
rows from the top left corner on, and its cells are the squares between them. The unit
square in triangles has a mesh in the same cases, whose triangles are two for each square of
the mesh of squares. In either mesh the corners of a cell are different and in
counterclockwise order, and a directed edge is in one cell only, with its reverse in another
one exactly if it does not lie on the boundary. -/
theorem grids_conform [Zero α] [One α] [Add α] [Neg α] [Mul α] [Div α] [NatCast α]
    (supply : MeshSupply) :
    (∀ (unitLength x y : α) (unitsX unitsY cellsPerUnit nx ny : Nat),
      1 ≤ unitsX → 1 ≤ unitsY → 1 ≤ cellsPerUnit →
      unitsX * cellsPerUnit = nx → unitsY * cellsPerUnit = ny →
      let mesh := rectangle supply unitLength unitsX unitsY cellsPerUnit x y
      let h := unitLength / (cellsPerUnit : α)
      ((∃ r, mesh = .ok r) ↔ (nx + 1) * (ny + 1) < Size.limit)
        ∧ (∀ e, mesh ≠ .error (.refused e))
        ∧ ∀ M supply', mesh = .ok (M, supply') → CutInSquares nx ny M
          ∧ ∀ i ≤ nx, ∀ j ≤ ny,
            M.vertices[vertexIndex nx i j]? = some #[x + (i : α) * h, y + -(j : α) * h])
    ∧ ∀ n, 1 ≤ n →
      let mesh : Except (Failure MeshError) (Mesh α × MeshSupply) := unitSquareTriangles supply n
      ((∃ r, mesh = .ok r) ↔ (n + 1) * (n + 1) < Size.limit)
        ∧ (∀ e, mesh ≠ .error (.refused e))
        ∧ ∀ M supply', mesh = .ok (M, supply') → ∃ S middle,
          unitSquare supply n = .ok (S, middle) ∧ CutInSquares n n S
          ∧ CutInTriangles n n S M := by
  constructor
  · intro unitLength x y unitsX unitsY cellsPerUnit nx ny hX hY hcells hnx hny mesh h
    have hcases := rectangle_cases supply unitLength x y hX hY hcells hnx hny
    obtain ⟨hiff, hrefused⟩ := Failure.answered_iff (r := mesh) <|
      hcases.imp (fun ⟨hfits, M, hM, _⟩ => ⟨hfits, _, hM⟩) (And.imp_left Nat.not_lt.2)
    refine ⟨hiff, hrefused, fun M supply' hM => ?_⟩
    rcases hcases with ⟨-, S, hS, hcell, hvertices, hsquares⟩ | ⟨-, herror⟩
    · cases hS.symm.trans hM
      have hlist := toList_squareVertices nx ny h x y
      have hsize : M.vertices.size = (nx + 1) * (ny + 1) := by
        rw [hvertices, size_squareVertices]
      refine ⟨cutInSquares (hnx ▸ Nat.mul_pos hX hcells) (hny ▸ Nat.mul_pos hY hcells) hcell
        hsize hsquares, fun i hi j hj => ?_⟩
      rw [hvertices, ← Array.getElem?_toList, hlist, List.getElem?_map,
        List.getElem?_range (vertexIndex_lt hi hj), Option.map_some, position_vertexIndex hi]
    · cases herror.symm.trans hM
  · intro n hn mesh
    have hcases := unitSquareTriangles_cases (α := α) supply hn
    obtain ⟨hiff, hrefused⟩ := Failure.answered_iff (r := mesh) <|
      hcases.imp (fun ⟨hfits, _, M, _, hM, _⟩ => ⟨hfits, _, hM⟩) (And.imp_left Nat.not_lt.2)
    refine ⟨hiff, hrefused, fun M supply' hM => ?_⟩
    rcases hcases with
      ⟨-, S, T, hS, hT, hvertices, hsquares, hcell, hsame, htriangles⟩ | ⟨-, herror⟩
    · cases hT.symm.trans hM
      have hsize : S.vertices.size = (n + 1) * (n + 1) := by
        rw [hvertices, size_squareVertices]
      exact ⟨S, _, hS, cutInSquares hn hn (next_of_rectangle hS).1 hsize hsquares,
        cutInTriangles hcell hsame hsquares htriangles⟩
    · cases herror.symm.trans hM

/-- Two squares with sides of length two from the top left corner `(0, 1)` on, whose vertex
four stands in column one and row one, and the two triangles of the unit square. -/
theorem grids_conform_two :
    (∃ M supply', rectangle .initial (2 : Int) 2 1 1 0 1 = .ok (M, supply')
      ∧ M.cellCount = 2 ∧ Conforming 2 1 M ∧ M.vertices[4]? = some #[2, -1])
    ∧ ∃ (M : Mesh Int) (supply' : MeshSupply), unitSquareTriangles .initial 1 = .ok (M, supply')
      ∧ M.cellCount = 2 ∧ Conforming 1 1 M := by
  obtain ⟨hrectangle, htriangles⟩ := grids_conform (α := Int) .initial
  constructor
  · obtain ⟨hfits, -, hmesh⟩ := hrectangle 2 0 1 2 1 1 2 1 (by decide) (by decide) (by decide)
      rfl rfl
    obtain ⟨⟨M, supply'⟩, hM⟩ := hfits.2 (by decide)
    obtain ⟨hcut, hvertices⟩ := hmesh M supply' hM
    exact ⟨M, supply', hM, hcut.cellCount_eq, hcut.conforming, hvertices 1 (by decide) 1 (by decide)⟩
  · obtain ⟨hfits, -, hmesh⟩ := htriangles 1 (by decide)
    obtain ⟨⟨M, supply'⟩, hM⟩ := hfits.2 (by decide)
    obtain ⟨S, -, -, -, hcut⟩ := hmesh M supply' hM
    exact ⟨M, supply', hM, hcut.cellCount_eq, hcut.conforming⟩

end Grid

end NodalAlgebra
