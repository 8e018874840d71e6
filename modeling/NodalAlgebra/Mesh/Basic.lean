import NodalAlgebra.Outcome
import NodalAlgebra.Mesh.Cell

/-!
# Meshes

A mesh is a list of points and a flat list of vertex indices, of which each run
as long as a cell has corners is one cell. Construction checks that the runs are
whole, that all points have one dimension and that every index names a point;
whatever reads a mesh relies on that. `defect?_eq_none_iff` says that nothing
else is asked of the input.

Every mesh carries an identity. Equal identities stand for the same mesh.
-/

namespace NodalAlgebra

/-- The identity of a mesh. -/
structure MeshId where
  number : Nat
deriving DecidableEq

/-- The identity as it is written: `#3`. -/
def MeshId.text (id : MeshId) : String := "#" ++ id.number.repr

/-- Why points and indices make no mesh. -/
inductive MeshError where
  /-- The indices are not a whole number of cells. -/
  | connectivityLength (length verticesPerCell : Nat)
  /-- A cell names a vertex that does not exist. -/
  | indexOutOfBounds (cell index vertexCount : Nat)
  /-- A vertex has another dimension than the first one. -/
  | vertexDimension (vertex dim expected : Nat)
deriving DecidableEq

/-- The wording of the reasons. -/
def MeshError.message : MeshError → String
  | .connectivityLength length perCell =>
      s!"Connectivity of length {length} is not a multiple of {perCell} vertices per cell."
  | .indexOutOfBounds cell index count =>
      s!"Cell {cell} references vertex {index}, but the mesh only has {count} vertices."
  | .vertexDimension vertex dim expected =>
      s!"Vertex {vertex} has dimension {dim}, expected {expected}."

/-- A mesh of cells of one type. -/
structure Mesh (α : Type) where
  id : MeshId
  cell : CellType
  /-- The points, each given by its coordinates. -/
  vertices : Array (Array α)
  /-- The vertex indices of the cells, cell after cell. -/
  connectivity : Array Nat
  wholeCells : connectivity.size % cell.vertexCount = 0
  uniform : ∀ v ∈ vertices, ∀ w ∈ vertices, v.size = w.size
  inRange : ∀ i ∈ connectivity, i < vertices.size

namespace Mesh

variable {α : Type}

/-! ## Construction -/

/-- The first vertex whose dimension is not that of vertex zero. -/
def dimensionDefect? (vertices : Array (Array α)) : Option MeshError :=
  vertices[0]?.bind fun first =>
    (vertices.zipIdx.find? fun v => v.1.size != first.size).map fun v =>
      .vertexDimension v.2 v.1.size first.size

/-- The first index that names no vertex. -/
def indexDefect? (cell : CellType) (vertexCount : Nat) (connectivity : Array Nat) :
    Option MeshError :=
  (connectivity.zipIdx.find? fun i => vertexCount ≤ i.1).map fun i =>
    .indexOutOfBounds (i.2 / cell.vertexCount) i.1 vertexCount

/-- What keeps points and indices from being a mesh: the number of indices is
looked at first, then the dimensions, then the indices. -/
def defect? (cell : CellType) (vertices : Array (Array α)) (connectivity : Array Nat) :
    Option MeshError :=
  if connectivity.size % cell.vertexCount ≠ 0 then
    some (.connectivityLength connectivity.size cell.vertexCount)
  else
    (dimensionDefect? vertices).or (indexDefect? cell vertices.size connectivity)

theorem dimensionDefect?_eq_none_iff {vertices : Array (Array α)} :
    dimensionDefect? vertices = none ↔ ∀ v ∈ vertices, ∀ w ∈ vertices, v.size = w.size := by
  unfold dimensionDefect?
  cases hfirst : vertices[0]? with
  | none =>
    have hempty : vertices = #[] := by
      simpa [Array.getElem?_eq_none_iff] using hfirst
    simp [hempty]
  | some first =>
    have hmem : first ∈ vertices := Array.mem_of_getElem? hfirst
    simp only [Option.bind_some, Option.map_eq_none_iff, Array.find?_eq_none]
    constructor
    · intro h
      have hall : ∀ v ∈ vertices, v.size = first.size := by
        intro v hv
        obtain ⟨i, hi, rfl⟩ := Array.mem_iff_getElem.1 hv
        have := h (vertices[i], i) (by simp [Array.mem_zipIdx_iff_getElem?])
        simpa using this
      intro v hv w hw
      rw [hall v hv, hall w hw]
    · intro h v hv
      have hv' : v.1 ∈ vertices :=
        Array.mem_of_getElem? (Array.mem_zipIdx_iff_getElem?.1 hv)
      simp [h v.1 hv' first hmem]

theorem indexDefect?_eq_none_iff {cell : CellType} {count : Nat} {connectivity : Array Nat} :
    indexDefect? cell count connectivity = none ↔ ∀ i ∈ connectivity, i < count := by
  simp only [indexDefect?, Option.map_eq_none_iff, Array.find?_eq_none]
  constructor
  · intro h i hi
    obtain ⟨k, hk, rfl⟩ := Array.mem_iff_getElem.1 hi
    have := h (connectivity[k], k) (by simp [Array.mem_zipIdx_iff_getElem?])
    simpa using this
  · intro h i hi
    have hi' : i.1 ∈ connectivity :=
      Array.mem_of_getElem? (Array.mem_zipIdx_iff_getElem?.1 hi)
    simpa using h i.1 hi'

/-- Points and indices make a mesh exactly if the three conditions hold. -/
theorem defect?_eq_none_iff {cell : CellType} {vertices : Array (Array α)}
    {connectivity : Array Nat} :
    defect? cell vertices connectivity = none ↔
      connectivity.size % cell.vertexCount = 0
        ∧ (∀ v ∈ vertices, ∀ w ∈ vertices, v.size = w.size)
        ∧ ∀ i ∈ connectivity, i < vertices.size := by
  unfold defect?
  split
  · simp_all
  · simp_all [Option.or_eq_none_iff, dimensionDefect?_eq_none_iff, indexDefect?_eq_none_iff]

/-- The mesh with the given identity, points and indices. -/
def build (id : MeshId) (cell : CellType) (vertices : Array (Array α))
    (connectivity : Array Nat) : Except MeshError (Mesh α) :=
  match h : defect? cell vertices connectivity with
  | some e => .error e
  | none =>
      have valid := defect?_eq_none_iff.1 h
      .ok ⟨id, cell, vertices, connectivity, valid.1, valid.2.1, valid.2.2⟩

/-! ## Cells -/

/-- The dimension of the space that the vertices live in; without vertices, that
of the reference cell. -/
def geometryDim (M : Mesh α) : Nat :=
  match M.vertices[0]? with
  | some v => v.size
  | none => M.cell.referenceDim

/-- The number of cells. -/
def cellCount (M : Mesh α) : Nat := M.connectivity.size / M.cell.vertexCount

/-- The vertex indices of cell `i`. -/
def cellVertices? (M : Mesh α) (i : Nat) : Option (List Nat) :=
  let k := M.cell.vertexCount
  if i < M.cellCount then some (M.connectivity.extract (k * i) (k * (i + 1))).toList else none

/-- Cuts a list into runs of length `k`; what is left over is dropped. -/
def chunks {β : Type} (k : Nat) (l : List β) : List (List β) :=
  if _h : 0 < k ∧ k ≤ l.length then l.take k :: chunks k (l.drop k) else []
termination_by l.length
decreasing_by
  simp only [List.length_drop]
  omega

/-- The vertex indices of all cells in order. -/
def cells (M : Mesh α) : List (List Nat) :=
  chunks M.cell.vertexCount M.connectivity.toList

/-- The points with the given indices. -/
def points (M : Mesh α) (indices : List Nat) : List (Array α) :=
  indices.filterMap fun i => M.vertices[i]?

/-- The mean of the vertices of cell `i`, added in order. -/
def centroid? [Zero α] [Add α] [Div α] [NatCast α] (M : Mesh α) (i : Nat) :
    Option (Array α) :=
  (M.cellVertices? i).map fun corners =>
    let sum := (M.points corners).foldl (fun s p => Array.zipWith (· + ·) s p)
      (Array.replicate M.geometryDim 0)
    sum.map fun x => x / (corners.length : α)

/-! ## Comparison -/

/-- Whether two meshes have the same identity and the same data. -/
def beq [BEq α] (M N : Mesh α) : Bool :=
  M.id == N.id && M.cell == N.cell && M.vertices == N.vertices
    && M.connectivity == N.connectivity

instance [BEq α] : BEq (Mesh α) := ⟨beq⟩

end Mesh

/-! ## Identities -/

/-- Hands out mesh identities: each new mesh takes the next number. -/
structure MeshSupply where
  next : Nat

/-- The supply from which no identity has been taken. -/
def MeshSupply.initial : MeshSupply := ⟨0⟩

/-- Constructs a mesh under the next identity. Input that makes no mesh takes
none. -/
def MeshSupply.build {α : Type} (supply : MeshSupply) (cell : CellType)
    (vertices : Array (Array α)) (connectivity : Array Nat) :
    Except MeshError (Mesh α × MeshSupply) :=
  match Mesh.build ⟨supply.next⟩ cell vertices connectivity with
  | .ok M => .ok (M, ⟨supply.next + 1⟩)
  | .error e => .error e

end NodalAlgebra
