import NodalAlgebra.Mesh.Basic

/-!
# Lemmas on meshes

When points and indices make a mesh, and how its cells make up the list of vertex
indices: cut into runs nothing is lost (`flatten_cells`), every run has the length
of a cell (`length_of_mem_cells`), and cell `i` is run `i` (`cellVertices?_eq`).
-/

namespace NodalAlgebra.Mesh

variable {α β : Type}

/-! ## Construction -/

theorem build_eq_ok {id : MeshId} {cell : CellType} {vertices : Array (Array α)}
    {connectivity : Array Nat} {M : Mesh α} :
    build id cell vertices connectivity = .ok M ↔
      M.id = id ∧ M.cell = cell ∧ M.vertices = vertices ∧ M.connectivity = connectivity := by
  unfold build
  split
  · rename_i e he
    simp only [reduceCtorEq, false_iff]
    rintro ⟨-, rfl, rfl, rfl⟩
    rw [defect?_eq_none_iff.2 ⟨M.wholeCells, M.uniform, M.inRange⟩] at he
    cases he
  · obtain ⟨id', cell', vertices', connectivity', _, _, _⟩ := M
    simp only [Except.ok.injEq, Mesh.mk.injEq]
    constructor <;> simp +contextual [eq_comm]

theorem build_eq_error {id : MeshId} {cell : CellType} {vertices : Array (Array α)}
    {connectivity : Array Nat} {e : MeshError} :
    build id cell vertices connectivity = .error e ↔
      defect? cell vertices connectivity = some e := by
  unfold build
  split <;> simp_all

/-! ## Runs -/

theorem length_of_mem_chunks {k : Nat} {l c : List β} (h : c ∈ chunks k l) : c.length = k := by
  fun_induction chunks k l with
  | case1 l hk ih =>
    rcases List.mem_cons.1 h with rfl | h
    · simp [hk.2]
    · exact ih h
  | case2 => simp at h

theorem length_chunks (k : Nat) (l : List β) : (chunks k l).length = l.length / k := by
  fun_induction chunks k l with
  | case1 l hk ih =>
    rw [List.length_cons, ih, List.length_drop, Nat.div_eq_sub_div hk.1 hk.2]
  | case2 l hk =>
    rcases Nat.eq_zero_or_pos k with rfl | hpos
    · simp
    · simp [Nat.div_eq_of_lt (by omega : l.length < k)]

/-- A whole number of runs is cut without loss. -/
theorem flatten_chunks {k : Nat} {l : List β} (hk : 0 < k) (h : l.length % k = 0) :
    (chunks k l).flatten = l := by
  fun_induction chunks k l with
  | case1 l hl ih =>
    rw [List.flatten_cons, ih, List.take_append_drop]
    rw [List.length_drop, ← Nat.mod_eq_sub_mod hl.2]
    exact h
  | case2 l hl =>
    rw [Nat.mod_eq_of_lt (by omega)] at h
    simp [List.eq_nil_of_length_eq_zero h]

/-- Runs of one length are found again where they have been put one after the other. -/
theorem chunks_flatten {k : Nat} (hk : 0 < k) {runs : List (List β)}
    (h : ∀ c ∈ runs, c.length = k) : chunks k runs.flatten = runs := by
  induction runs with
  | nil =>
    rw [List.flatten_nil, chunks, dif_neg]
    simp only [List.length_nil]
    omega
  | cons c runs ih =>
    obtain ⟨hc, hruns⟩ := List.forall_mem_cons.1 h
    rw [List.flatten_cons, chunks, dif_pos, ← hc, List.take_left, List.drop_left, hc, ih hruns]
    rw [List.length_append]
    omega

theorem chunks_getElem? {k i : Nat} {l : List β} (hi : i < l.length / k) :
    (chunks k l)[i]? = some ((l.drop (k * i)).take k) := by
  fun_induction chunks k l generalizing i with
  | case1 l hl ih =>
    cases i with
    | zero => simp
    | succ i =>
      rw [Nat.div_eq_sub_div hl.1 hl.2] at hi
      rw [List.getElem?_cons_succ, ih (by rw [List.length_drop]; omega), List.drop_drop,
        Nat.mul_succ, Nat.add_comm]
  | case2 l hl =>
    rcases Nat.eq_zero_or_pos k with rfl | hpos
    · simp at hi
    · rw [Nat.div_eq_of_lt (by omega)] at hi
      omega

/-! ## Cells -/

/-- The cells take up all vertex indices. -/
theorem cellCount_mul_vertexCount (M : Mesh α) :
    M.cellCount * M.cell.vertexCount = M.connectivity.size :=
  Nat.div_mul_cancel (Nat.dvd_of_mod_eq_zero M.wholeCells)

theorem length_cells (M : Mesh α) : M.cells.length = M.cellCount := by
  simp [cells, length_chunks, cellCount]

theorem length_of_mem_cells {M : Mesh α} {c : List Nat} (h : c ∈ M.cells) :
    c.length = M.cell.vertexCount :=
  length_of_mem_chunks h

/-- The cells one after the other are the vertex indices of the mesh. -/
theorem flatten_cells (M : Mesh α) : M.cells.flatten = M.connectivity.toList :=
  flatten_chunks M.cell.vertexCount_pos (by simpa using M.wholeCells)

/-- The vertex indices of a cell are an item of the list of cells. -/
theorem cellVertices?_eq (M : Mesh α) (i : Nat) : M.cellVertices? i = M.cells[i]? := by
  simp only [cellVertices?]
  split
  · rename_i h
    have hi : i < M.connectivity.toList.length / M.cell.vertexCount := by
      simpa [cellCount] using h
    rw [cells, chunks_getElem? hi, Array.toList_extract, List.extract_eq_take_drop]
    congr 2
    rw [Nat.mul_succ]
    omega
  · rename_i h
    rw [List.getElem?_eq_none]
    rw [length_cells]
    omega

/-- The corners of a cell are vertices of the mesh. -/
theorem lt_of_mem_cells {M : Mesh α} {c : List Nat} (hc : c ∈ M.cells) {i : Nat} (hi : i ∈ c) :
    i < M.vertices.size := by
  apply M.inRange
  rw [← Array.mem_toList_iff, ← flatten_cells]
  exact List.mem_flatten.2 ⟨c, hc, hi⟩

/-- The points of some vertices are listed in the order of their indices. -/
theorem getElem?_points {M : Mesh α} {indices : List Nat}
    (h : ∀ i ∈ indices, i < M.vertices.size) (n : Nat) :
    (M.points indices)[n]? = indices[n]?.bind fun i => M.vertices[i]? := by
  induction indices generalizing n with
  | nil => rfl
  | cons i rest ih =>
    have hi : i < M.vertices.size := h i (by simp)
    rw [points, List.filterMap_cons]
    simp only [Array.getElem?_eq_getElem hi]
    cases n with
    | zero => simp [hi]
    | succ n =>
      rw [List.getElem?_cons_succ, List.getElem?_cons_succ]
      exact ih (fun j hj => h j (by simp [hj])) n

/-- Each index of a vertex gives one point. -/
theorem length_points {M : Mesh α} {indices : List Nat}
    (h : ∀ i ∈ indices, i < M.vertices.size) : (M.points indices).length = indices.length := by
  induction indices with
  | nil => rfl
  | cons i rest ih =>
    have hi : i < M.vertices.size := h i (by simp)
    rw [points, List.filterMap_cons]
    simp only [Array.getElem?_eq_getElem hi, List.length_cons]
    rw [← points, ih fun j hj => h j (by simp [hj])]

end NodalAlgebra.Mesh
