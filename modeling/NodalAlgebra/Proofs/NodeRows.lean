import NodalAlgebra.Proofs.DofLayout
import NodalAlgebra.Proofs.GatherScatter
import NodalAlgebra.Proofs.Nodewise

/-!
# Rows of a node map

A map of a space, whole or not, gives each node a row of coefficients of its own
(`NodeMap.splits_of_build`). Scattering overwrites the row of a node and nothing else
(`NodeMap.scatter_eq_ok`), and gathering reads a value back from the row
(`NodeMap.gather_eq_ok`). What one row is overwritten with is known by what stands in it
afterwards (`Overwritten.unique`), and rows that have no coefficient in common can be
overwritten in either order (`Overwritten.swap`). The laws of gathering and scattering
follow for every map that can be built, also where the table is changed in place
(`NodeMap.gather_scatter_of_build`).
-/

namespace NodalAlgebra

variable {α : Type}

/-! ## Overwriting a row -/

/-- A table that differs from another one in a row, which holds the given values. -/
structure Overwritten (row : List Nat) (values : List α) (old new : Array α) : Prop where
  size_eq : new.size = old.size
  written : row.map (fun i => new[i]?) = values.map some
  unchanged : ∀ i, i ∉ row → new[i]? = old[i]?

namespace Overwritten

variable {row row' : List Nat} {values values' : List α} {old mid mid' new new' : Array α}

/-- Tables that hold the same values in a row agree there. -/
theorem eq_of_mem (h : row.map (fun i => new[i]?) = values.map some)
    (h' : row.map (fun i => new'[i]?) = values.map some) {i : Nat} (hi : i ∈ row) :
    new[i]? = new'[i]? :=
  List.map_inj_left.1 (h.trans h'.symm) i hi

theorem unique (h : Overwritten row values old new) (h' : Overwritten row values old new') :
    new = new' := by
  apply Array.ext_getElem?
  intro i
  by_cases hi : i ∈ row
  · exact eq_of_mem h.written h'.written hi
  · exact (h.unchanged i hi).trans (h'.unchanged i hi).symm

/-- Other rows hold what they held before. -/
theorem map_eq (h : Overwritten row values old new) (hdisjoint : row.Disjoint row') :
    row'.map (fun i => new[i]?) = row'.map (fun i => old[i]?) :=
  List.map_congr_left fun i hi => h.unchanged i fun hrow => hdisjoint hrow hi

/-- Two rows without a common coefficient can be overwritten in either order. -/
theorem swap (hdisjoint : row.Disjoint row') (h : Overwritten row values old mid)
    (hnew : Overwritten row' values' mid new) (h' : Overwritten row' values' old mid') :
    Overwritten row values mid' new := by
  refine ⟨by rw [hnew.size_eq, h.size_eq, h'.size_eq], ?_, fun i hi => ?_⟩
  · rw [hnew.map_eq (List.disjoint_symm hdisjoint), h.written]
  · by_cases hi' : i ∈ row'
    · exact eq_of_mem hnew.written h'.written hi'
    · rw [hnew.unchanged i hi', h.unchanged i hi, h'.unchanged i hi']

/-- One coefficient is overwritten, and then those of the rest of the row. -/
theorem cons {i : Nat} {x : α} (hi : i < old.size) (hrow : i ∉ row)
    (h : Overwritten row values (old.set i x) new) :
    Overwritten (i :: row) (x :: values) old new := by
  refine ⟨by rw [h.size_eq, Array.size_set], ?_, fun j hj => ?_⟩
  · rw [List.map_cons, List.map_cons, h.written, h.unchanged i hrow, Array.getElem?_set_self hi]
  · rw [List.mem_cons, not_or] at hj
    obtain ⟨hne, hj⟩ := hj
    rw [h.unchanged j hj, Array.getElem?_set_ne hi (Ne.symm hne)]

end Overwritten

namespace NodeMap

/-- Writing values to the places of a row overwrites the row. -/
theorem exists_foldlM_writeAt {row : List Nat} {values : List α} {old : Array α}
    (hnodup : row.Nodup) (hlt : ∀ i ∈ row, i < old.size) (hlength : row.length = values.length) :
    ∃ new, (row.zip values).foldlM (fun cs entry => writeAt cs entry.1 entry.2) old = .ok new
      ∧ Overwritten row values old new := by
  induction row generalizing values old with
  | nil =>
      obtain rfl := List.eq_nil_of_length_eq_zero hlength.symm
      exact ⟨old, rfl, rfl, rfl, fun i _ => rfl⟩
  | cons i row ih =>
      cases values with
      | nil => cases hlength
      | cons x values =>
          obtain ⟨hi, hnodup⟩ := List.nodup_cons.1 hnodup
          have hsize : i < old.size := hlt i (by simp)
          have hlt' : ∀ j ∈ row, j < (old.set i x).size := by
            intro j hj
            rw [Array.size_set]
            exact hlt j (by simp [hj])
          obtain ⟨new, hnew, h⟩ := ih hnodup hlt' (Nat.succ.inj hlength)
          refine ⟨new, ?_, h.cons hsize hi⟩
          have hwrite : writeAt old i x = .ok (old.set i x) := dif_pos hsize
          rw [List.zip_cons_cons, List.foldlM_cons, hwrite]
          exact hnew

/-! ## Access through a map -/

/-- A map gives every node as many coefficients as a value of its shape has components,
all of them in a table of the given size and none of them twice. -/
structure Splits (m : NodeMap) (size : Nat) : Prop where
  rank_le : m.shape.rank ≤ 2
  counted : m.shape.componentCount? = .ok m.components
  length_row : ∀ row ∈ m.rows, row.length = m.components
  lt_size : ∀ row ∈ m.rows, ∀ i ∈ row, i < size
  nodup : ∀ row ∈ m.rows, row.Nodup
  disjoint : m.rows.toList.Pairwise List.Disjoint

variable {m : NodeMap} {cs cs' : Array α} {n k : Nat} {v : TensorValue α} {row row' : List Nat}

theorem indices_eq_ok : m.indices n = .ok row ↔ m.rows[n]? = some row := by
  unfold indices
  split
  · rename_i h
    rw [h, Option.some.injEq, Except.ok.injEq]
  · rename_i h
    simp [h]

theorem readAt_eq_ok {i : Nat} {x : α} : readAt cs i = .ok x ↔ cs[i]? = some x := by
  unfold readAt
  split
  · rename_i h
    rw [h, Option.some.injEq, Except.ok.injEq]
  · rename_i h
    simp [h]

theorem mapM_readAt_eq_ok {values : List α} :
    row.mapM (readAt cs) = .ok values ↔ row.map (fun i => cs[i]?) = values.map some := by
  rw [mapM_eq_ok]
  simp only [readAt_eq_ok]
  rw [← List.forall₂_eq_eq_eq, List.forall₂_map_left_iff, List.forall₂_map_right_iff]

theorem Splits.length_eq (hm : m.Splits cs.size) (hrow : m.rows[n]? = some row) :
    row.length = m.components :=
  hm.length_row row (Array.mem_of_getElem? hrow)

/-- What is read from a row has the right number of components. -/
theorem Splits.length_values (hm : m.Splits cs.size) (hrow : m.rows[n]? = some row)
    {values : List α} (h : row.map (fun i => cs[i]?) = values.map some) :
    values.length = m.components := by
  rw [← hm.length_eq hrow, ← List.length_map some, ← h, List.length_map]

/-- So has what is written into it. -/
theorem Splits.length_components (hm : m.Splits cs.size) (hshape : v.shape = m.shape) :
    v.components.toList.length = m.components := by
  rw [Array.length_toList, v.size_components, hshape, Shape.componentCount_eq hm.counted]

theorem Splits.exists_overwritten (hm : m.Splits cs.size) (hrow : m.rows[n]? = some row)
    (hshape : v.shape = m.shape) :
    ∃ new, (row.zip v.components.toList).foldlM (fun cs entry => writeAt cs entry.1 entry.2) cs
        = .ok new
      ∧ Overwritten row v.components.toList cs new := by
  have hmem : row ∈ m.rows := Array.mem_of_getElem? hrow
  exact exists_foldlM_writeAt (hm.nodup row hmem) (hm.lt_size row hmem)
    ((hm.length_row row hmem).trans (hm.length_components hshape).symm)

/-- A value is gathered if its components stand in the row of the node. -/
theorem gather_eq_ok (hm : m.Splits cs.size) :
    m.gather cs n = .ok v ↔
      v.shape = m.shape ∧ ∃ row, m.rows[n]? = some row
        ∧ row.map (fun i => cs[i]?) = v.components.toList.map some := by
  simp only [gather, bind_eq_ok, Failure.ofFault_eq_ok, indices_eq_ok, mapM_readAt_eq_ok]
  constructor
  · rintro ⟨row, hrow, values, hvalues, r, hr, h⟩
    cases r with
    | none => cases h
    | some a =>
        cases h
        obtain ⟨-, hshape, hcomponents⟩ := TensorValue.ofRowMajor?_eq_some.1 hr
        exact ⟨hshape, row, hrow, by rw [hcomponents]; exact hvalues⟩
  · rintro ⟨hshape, row, hrow, hvalues⟩
    have hcount : m.shape.componentCount? = .ok v.components.size := by
      rw [hm.counted, ← hm.length_values hrow hvalues, Array.length_toList]
    exact ⟨row, hrow, v.components.toList, hvalues, some v,
      TensorValue.ofRowMajor?_eq_some.2 ⟨hcount, hshape, Array.toArray_toList⟩, rfl⟩

/-- Gathering looks at the row of the node only. -/
theorem gather_congr
    (h : ∀ row, m.rows[n]? = some row → row.map (fun i => cs'[i]?) = row.map (fun i => cs[i]?)) :
    m.gather cs' n = m.gather cs n := by
  cases hrow : m.rows[n]? with
  | none => simp [gather, indices, hrow]
  | some row =>
      have hread : row.mapM (readAt cs') = row.mapM (readAt cs) := by
        refine mapM_congr (List.forall₂_same.2 fun i hi => ?_)
        rw [readAt, readAt, List.map_inj_left.1 (h row hrow) i hi]
      simp only [gather, indices, hrow, Failure.ofFault_ok, ok_bind, hread]

/-- Scattering a value of the map's shape overwrites the row of the node. -/
theorem scatter_eq_ok (hm : m.Splits cs.size) :
    m.scatter cs n v = .ok cs' ↔
      v.shape = m.shape ∧ ∃ row, m.rows[n]? = some row
        ∧ Overwritten row v.components.toList cs cs' := by
  by_cases hshape : v.shape = m.shape
  · have hcomponents : v.writeRowMajor m.components = .ok v.components := by
      simp [TensorValue.writeRowMajor, hshape, hm.counted]
    rw [scatter, if_pos hshape, hcomponents, and_iff_right hshape]
    simp only [Failure.ofFault_ok, ok_bind, bind_eq_ok, Failure.ofFault_eq_ok, indices_eq_ok]
    refine exists_congr fun row => and_congr_right fun hrow => ?_
    obtain ⟨new, hnew, hover⟩ := hm.exists_overwritten hrow hshape
    rw [hnew, Except.ok.injEq]
    -- the row and its values leave no choice of the new table
    exact ⟨fun h => h ▸ hover, hover.unique⟩
  · simp [scatter, hshape]

/-! ## The laws of a map -/

theorem Splits.disjoint_rows {size : Nat} (hm : m.Splits size) (hrow : m.rows[n]? = some row)
    (hrow' : m.rows[k]? = some row') (hne : n ≠ k) : row.Disjoint row' := by
  rw [← Array.getElem?_toList] at hrow hrow'
  obtain ⟨hn, rfl⟩ := List.getElem?_eq_some_iff.1 hrow
  obtain ⟨hk, rfl⟩ := List.getElem?_eq_some_iff.1 hrow'
  rcases Nat.lt_or_gt_of_ne hne with h | h
  · exact List.pairwise_iff_getElem.1 hm.disjoint n k hn hk h
  · exact List.disjoint_symm (List.pairwise_iff_getElem.1 hm.disjoint k n hk hn h)

theorem exists_row (hn : n < m.nodeCount) : ∃ row, m.rows[n]? = some row :=
  ⟨_, Array.getElem?_eq_getElem hn⟩

/-- Every node has a value. -/
theorem exists_gather (hm : m.Splits cs.size) (hn : n < m.nodeCount) :
    ∃ v, v.shape = m.shape ∧ m.gather cs n = .ok v := by
  obtain ⟨row, hrow⟩ := exists_row hn
  obtain ⟨values, hvalues⟩ : ∃ values, row.mapM (readAt cs) = .ok values := by
    cases h : row.mapM (readAt cs) with
    | ok values => exact ⟨values, rfl⟩
    | error cause =>
        obtain ⟨before, i, after, rfl, -, hi⟩ := mapM_eq_error.1 h
        have hlt : i < cs.size := hm.lt_size _ (Array.mem_of_getElem? hrow) i (by simp)
        simp [readAt, Array.getElem?_eq_getElem hlt] at hi
  rw [mapM_readAt_eq_ok] at hvalues
  have hsize : values.toArray.size = m.shape.componentCount := by
    rw [Shape.componentCount_eq hm.counted, List.size_toArray, hm.length_values hrow hvalues]
  obtain ⟨v, hv⟩ := TensorValue.exists_read? hm.rank_le hsize
  obtain ⟨hshape, hcomponents⟩ := TensorValue.read?_eq_some.1 hv
  exact ⟨v, hshape, (gather_eq_ok hm).2 ⟨hshape, row, hrow, by rw [hcomponents]; exact hvalues⟩⟩

/-- Every node takes a value of the map's shape. -/
theorem exists_scatter (hm : m.Splits cs.size) (hn : n < m.nodeCount) (hshape : v.shape = m.shape) :
    ∃ new, m.scatter cs n v = .ok new := by
  obtain ⟨row, hrow⟩ := exists_row hn
  obtain ⟨new, -, hnew⟩ := hm.exists_overwritten hrow hshape
  exact ⟨new, (scatter_eq_ok hm).2 ⟨hshape, row, hrow, hnew⟩⟩

theorem size_of_scatter (hm : m.Splits cs.size) (h : m.scatter cs n v = .ok cs') :
    cs'.size = cs.size := by
  obtain ⟨-, row, -, hnew⟩ := (scatter_eq_ok hm).1 h
  exact hnew.size_eq

/-- What has been scattered at a node is gathered there. -/
theorem gather_of_scatter (hm : m.Splits cs.size) (h : m.scatter cs n v = .ok cs') :
    m.gather cs' n = .ok v := by
  obtain ⟨hshape, row, hrow, hnew⟩ := (scatter_eq_ok hm).1 h
  exact (gather_eq_ok (hnew.size_eq ▸ hm)).2 ⟨hshape, row, hrow, hnew.written⟩

/-- At every other node the value stays. -/
theorem gather_of_scatter_ne (hm : m.Splits cs.size) (h : m.scatter cs n v = .ok cs')
    (hne : n ≠ k) : m.gather cs' k = m.gather cs k := by
  obtain ⟨-, row, hrow, hnew⟩ := (scatter_eq_ok hm).1 h
  exact gather_congr fun row' hrow' => hnew.map_eq (hm.disjoint_rows hrow hrow' hne)

/-- Scattering what has been gathered changes nothing. -/
theorem scatter_of_gather (hm : m.Splits cs.size) (h : m.gather cs n = .ok v) :
    m.scatter cs n v = .ok cs := by
  obtain ⟨hshape, row, hrow, hvalues⟩ := (gather_eq_ok hm).1 h
  exact (scatter_eq_ok hm).2 ⟨hshape, row, hrow, rfl, hvalues, fun i _ => rfl⟩

/-- The order of two nodes does not matter. -/
theorem scatter_comm (hm : m.Splits cs.size) {w : TensorValue α} {new : Array α} (hne : n ≠ k)
    (hv : m.scatter cs n v = .ok cs') (hw : m.scatter cs' k w = .ok new) :
    (m.scatter cs k w >>= fun ds => m.scatter ds n v) = .ok new := by
  obtain ⟨hshape, row, hrow, hcs'⟩ := (scatter_eq_ok hm).1 hv
  obtain ⟨hshape', row', hrow', hnew⟩ := (scatter_eq_ok (hcs'.size_eq ▸ hm)).1 hw
  obtain ⟨hk, -⟩ := Array.getElem?_eq_some_iff.1 hrow'
  obtain ⟨ds, hds⟩ := exists_scatter hm hk hshape'
  obtain ⟨-, row'', hrow'', hover⟩ := (scatter_eq_ok hm).1 hds
  obtain rfl : row' = row'' := Option.some.inj (hrow'.symm.trans hrow'')
  rw [hds, ok_bind]
  exact (scatter_eq_ok (hover.size_eq ▸ hm)).2
    ⟨hshape, row, hrow, hcs'.swap (hm.disjoint_rows hrow hrow' hne) hnew hover⟩

end NodeMap

/-! ## The rows of a space -/

namespace FunctionSpace

/-- The number of components of a value at a node: one for each sub-space, and a single one
where there are none. -/
def width (V : FunctionSpace α) : Nat := max 1 V.subCount

/-- The degrees of freedom of the space at a node. -/
def row (V : FunctionSpace α) (n : Nat) : List Nat := List.range' (V.dofOfNode n) V.width

theorem width_of_whole {V : FunctionSpace α} (h : V.component = none) : V.width = V.stride := by
  rw [width, subCount_of_whole h]
  split
  · rename_i hscalar
    exact (FiniteElement.componentCount_of_isScalar hscalar).symm
  · exact Nat.max_eq_right V.stride_pos

theorem row_of_whole {V : FunctionSpace α} (h : V.component = none) (n : Nat) :
    V.row n = List.range' (n * V.stride) V.stride := by
  rw [row, dofOfNode, width_of_whole h, h, Option.getD_none, Nat.add_zero]

theorem component_getD_add_width_le (V : FunctionSpace α) :
    V.component.getD 0 + V.width ≤ V.stride := by
  cases hc : V.component with
  | none => simp [width_of_whole hc]
  | some c =>
      have hlt := V.component_getD_lt
      rw [hc] at hlt
      rw [width, subCount_of_component hc]
      exact hlt

/-- The number of a degree of freedom in the row of a node tells the node. -/
theorem div_of_mem_row {V : FunctionSpace α} {n i : Nat} (h : i ∈ V.row n) :
    i / V.stride = n := by
  have hwidth := V.component_getD_add_width_le
  rw [row, List.mem_range'_1, dofOfNode] at h
  refine Nat.div_eq_of_lt_le (by omega) ?_
  rw [Nat.succ_mul]
  omega

/-- The row of a node in a whole space is everything that stands for the node. -/
theorem mem_row_of_whole {V : FunctionSpace α} (h : V.component = none) (i : Nat) :
    i ∈ V.row (i / V.stride) := by
  have hmod := Nat.mod_lt i V.stride_pos
  have hdiv := Nat.div_add_mod' i V.stride
  rw [row_of_whole h, List.mem_range'_1]
  omega

end FunctionSpace

namespace NodeMap

variable {V : FunctionSpace α} {s : Shape} {m : NodeMap}

/-- The map of a space, whole or not, consists of the rows of the space. -/
theorem rows_of_build (h : build V s = .ok m) :
    m.shape = s ∧ m.components = V.width ∧ s.rank ≤ 2 ∧ s.componentCount? = .ok V.width
      ∧ m.rows.toList = (List.range V.nodeCount).map V.row := by
  cases hcomponent : V.component with
  | none =>
      have hwidth := FunctionSpace.width_of_whole hcomponent
      obtain ⟨hrank, -, hcount, rfl⟩ := (build_eq_ok hcomponent).1 h
      refine ⟨rfl, hwidth.symm, hrank, by rw [hwidth]; exact hcount, ?_⟩
      rw [funext (FunctionSpace.row_of_whole hcomponent)]
      rfl
  | some c =>
      -- a sub-space holds numbers, so only the scalar shape has a map
      have hsubs := FunctionSpace.subCount_of_component hcomponent
      have hwidth : V.width = 1 := by rw [FunctionSpace.width, hsubs]; rfl
      rw [build, if_pos hsubs] at h
      by_cases hrank : 2 < s.rank
      · rw [if_pos hrank] at h
        cases h
      by_cases hs : s.isScalar = true
      · rw [if_neg hrank, if_pos hs] at h
        cases h
        obtain rfl := Shape.isScalar_iff.1 hs
        refine ⟨rfl, hwidth.symm, Nat.le_of_not_lt hrank, by rw [hwidth]; rfl, ?_⟩
        rw [FunctionSpace.dofs, if_pos hsubs, List.map_map]
        refine List.map_congr_left fun n _ => ?_
        rw [FunctionSpace.row, hwidth]
        rfl
      · rw [if_neg hrank, if_neg hs] at h
        cases h

theorem splits_of_build (h : build V s = .ok m) : m.Splits V.dim := by
  obtain ⟨hshape, hcomponents, hrank, hcount, hrows⟩ := rows_of_build h
  have hmem : ∀ row ∈ m.rows, ∃ n < V.nodeCount, V.row n = row := by
    intro row hrow
    rw [← Array.mem_toList_iff, hrows] at hrow
    simpa using hrow
  refine ⟨by rw [hshape]; exact hrank, by rw [hshape, hcomponents]; exact hcount, ?_, ?_, ?_, ?_⟩
  · intro row hrow
    obtain ⟨n, -, rfl⟩ := hmem row hrow
    rw [hcomponents, FunctionSpace.row, List.length_range']
  · intro row hrow i hi
    obtain ⟨n, hn, rfl⟩ := hmem row hrow
    rw [← FunctionSpace.div_of_mem_row hi] at hn
    exact (Nat.div_lt_iff_lt_mul V.stride_pos).1 hn
  · intro row hrow
    obtain ⟨n, -, rfl⟩ := hmem row hrow
    exact List.nodup_range'
  · rw [hrows, List.pairwise_map]
    refine List.nodup_range.imp fun {n k} hne i hi hk => hne ?_
    rw [← FunctionSpace.div_of_mem_row hi, FunctionSpace.div_of_mem_row hk]

theorem nodeCount_of_build (h : build V s = .ok m) : m.nodeCount = V.nodeCount := by
  obtain ⟨-, -, -, -, hrows⟩ := rows_of_build h
  rw [nodeCount, ← Array.length_toList, hrows, List.length_map, List.length_range]

/-- The rows of a whole space have all its degrees of freedom. -/
theorem exists_row_of_build (h : build V s = .ok m) (hwhole : V.component = none) {i : Nat}
    (hi : i < V.dim) : ∃ row ∈ m.rows, i ∈ row := by
  obtain ⟨-, -, -, -, hrows⟩ := rows_of_build h
  refine ⟨V.row (i / V.stride), ?_, FunctionSpace.mem_row_of_whole hwhole i⟩
  rw [← Array.mem_toList_iff, hrows]
  exact List.mem_map.2 ⟨_, List.mem_range.2 ((Nat.div_lt_iff_lt_mul V.stride_pos).2 hi), rfl⟩

/-! ## One table for all rows -/

/-- The rows of a map in one list, node after node. -/
def flat (m : NodeMap) : List Nat := m.rows.toList.flatten

variable {size : Nat}

theorem Splits.length_flat (hm : m.Splits size) :
    m.flat.length = m.nodeCount * m.components := by
  rw [flat, length_flatten_block fun row hrow => hm.length_row row (Array.mem_toList_iff.1 hrow),
    Array.length_toList, nodeCount]

/-- The row of a node is a block of the list. -/
theorem Splits.indices_eq_flat (hm : m.Splits size) {n : Nat} (hn : n < m.nodeCount) :
    m.indices n = .ok ((m.flat.drop (n * m.components)).take m.components) := by
  have hrow := flatten_block
    (fun row hrow => hm.length_row row (Array.mem_toList_iff.1 hrow))
    (show n < m.rows.toList.length by rwa [Array.length_toList])
  rw [flat, hrow, Array.getElem_toList, indices_eq_ok]
  exact Array.getElem?_eq_getElem hn

/-- The length of the list tells the number of nodes. -/
theorem nodeCount_eq_div (h : build V s = .ok m) :
    m.flat.length / m.components = V.nodeCount := by
  obtain ⟨-, hcomponents, -⟩ := rows_of_build h
  have hpos : 0 < m.components := by
    rw [hcomponents]
    exact Nat.le_max_left 1 V.subCount
  rw [(splits_of_build h).length_flat, Nat.mul_div_cancel _ hpos, nodeCount_of_build h]

/-! ## Scattering in place -/

/-- Writes one coefficient after the other into a table. Where one is out of range, those
before it have been written. -/
def writeInPlace : List (Nat × α) → Array α → Except Fault Unit × Array α
  | [], cs => (.ok (), cs)
  | (i, x) :: rest, cs =>
      if h : i < cs.size then writeInPlace rest (cs.set i x) else (.error .outOfRange, cs)

/-- Scattering into a table that is changed in place: the outcome, and what the table holds
afterwards. -/
def scatterInPlace (m : NodeMap) (cs : Array α) (node : Nat) (value : TensorValue α) :
    Except (Failure EvalError) Unit × Array α :=
  if value.shape = m.shape then
    match value.writeRowMajor m.components, m.indices node with
    | .ok components, .ok row =>
        (writeInPlace (row.zip components.toList) cs).map Failure.ofFault id
    | .error cause, _ => (.error (.fault cause), cs)
    | .ok _, .error cause => (.error (.fault cause), cs)
  else (.error (.refused (.kernelShape m.shape value.shape)), cs)

/-- Without an entry out of range, what is left in place is the table with all entries. -/
theorem foldlM_writeAt_eq (entries : List (Nat × α)) (cs : Array α) :
    entries.foldlM (fun cs entry => writeAt cs entry.1 entry.2) cs
      = (writeInPlace entries cs).1.map fun _ => (writeInPlace entries cs).2 := by
  induction entries generalizing cs with
  | nil => rfl
  | cons entry entries ih =>
      rw [writeInPlace, List.foldlM_cons, writeAt]
      split
      · exact ih _
      · rfl

/-- Scattering in place comes to the same end, and where it succeeds it leaves the new
table. -/
theorem scatter_eq_scatterInPlace (m : NodeMap) (cs : Array α) (n : Nat) (v : TensorValue α) :
    m.scatter cs n v
      = (m.scatterInPlace cs n v).1.map fun _ => (m.scatterInPlace cs n v).2 := by
  unfold scatterInPlace scatter
  by_cases hshape : v.shape = m.shape
  · rw [if_pos hshape, if_pos hshape]
    cases v.writeRowMajor m.components with
    | error cause => rfl
    | ok components =>
        cases m.indices n with
        | error cause => rfl
        | ok row =>
            simp only [Failure.ofFault_ok, ok_bind, foldlM_writeAt_eq, Prod.map]
            cases (writeInPlace (row.zip components.toList) cs).1 <;> rfl
  · rw [if_neg hshape, if_neg hshape]
    rfl

/-! ## The laws for the maps of spaces -/

/-- A map that is built for a space, a sub-space included, gives each node of the space a
row of its own, with one coefficient for each component of a value; for a whole space
nothing is left over. The nodes and their rows are found in the flat list of all rows as
well. For a table with one entry for each degree of freedom the laws of gathering and
scattering hold: a value that is scattered is gathered again, the rest of the table and the
values at the other nodes stay, scattering what has been gathered changes nothing, and two
nodes can be written in either order. A value of another shape is refused, with the table
as it was. -/
theorem gather_scatter_of_build (h : build V s = .ok m) :
    m.Splits V.dim ∧ m.shape = s ∧ m.nodeCount = V.nodeCount ∧ V.nodesByDofs = V.nodeCount
      ∧ m.flat.length / m.components = V.nodeCount
      ∧ (∀ n < V.nodeCount,
        m.indices n = .ok ((m.flat.drop (n * m.components)).take m.components))
      ∧ (V.component = none → ∀ i < V.dim, ∃ row ∈ m.rows, i ∈ row)
      ∧ ∀ cs : Array α, cs.size = V.dim →
        (∀ n < V.nodeCount, ∀ v : TensorValue α, v.shape = s →
          ∃ row cs', m.indices n = .ok row ∧ m.scatter cs n v = .ok cs' ∧ cs'.size = cs.size
            ∧ m.gather cs' n = .ok v
            ∧ (∀ k, n ≠ k → m.gather cs' k = m.gather cs k)
            ∧ ∀ i, i ∉ row → cs'[i]? = cs[i]?)
        ∧ (∀ n < V.nodeCount, ∃ v : TensorValue α, v.shape = s ∧ m.gather cs n = .ok v
          ∧ m.scatter cs n v = .ok cs)
        ∧ (∀ n < V.nodeCount, ∀ k < V.nodeCount, n ≠ k → ∀ v w : TensorValue α,
          v.shape = s → w.shape = s →
          ∃ cs', (m.scatter cs n v >>= fun ds => m.scatter ds k w) = .ok cs'
            ∧ (m.scatter cs k w >>= fun ds => m.scatter ds n v) = .ok cs')
        ∧ ∀ n (v : TensorValue α),
          m.scatter cs n v
              = ((m.scatterInPlace cs n v).1.map fun _ => (m.scatterInPlace cs n v).2)
            ∧ (v.shape ≠ s →
              m.scatterInPlace cs n v = (.error (.refused (.kernelShape s v.shape)), cs)) := by
  have hm := splits_of_build h
  have hnodes := nodeCount_of_build h
  obtain ⟨rfl, -⟩ := rows_of_build h
  refine ⟨hm, rfl, hnodes, V.nodesByDofs_eq, nodeCount_eq_div h,
    fun n hn => hm.indices_eq_flat (hnodes ▸ hn),
    fun hwhole i hi => exists_row_of_build h hwhole hi, ?_⟩
  intro cs hcs
  rw [← hcs] at hm
  rw [← hnodes]
  refine ⟨?_, ?_, ?_, fun n v => ⟨m.scatter_eq_scatterInPlace cs n v, fun hne => if_neg hne⟩⟩
  · intro n hn v hv
    obtain ⟨cs', hcs'⟩ := exists_scatter hm hn hv
    obtain ⟨-, row, hrow, hnew⟩ := (scatter_eq_ok hm).1 hcs'
    exact ⟨row, cs', indices_eq_ok.2 hrow, hcs', hnew.size_eq, gather_of_scatter hm hcs',
      fun k hne => gather_of_scatter_ne hm hcs' hne, hnew.unchanged⟩
  · intro n hn
    obtain ⟨v, hv, hgather⟩ := exists_gather hm hn
    exact ⟨v, hv, hgather, scatter_of_gather hm hgather⟩
  · intro n hn k hk hne v w hv hw
    obtain ⟨ds, hds⟩ := exists_scatter hm hn hv
    obtain ⟨cs', hcs'⟩ := exists_scatter ((size_of_scatter hm hds) ▸ hm) hk hw
    refine ⟨cs', by rw [hds, ok_bind, hcs'], scatter_comm hm hne hds hcs'⟩

/-- The two matrices of a segment as vectors of four components: the second one is scattered
and gathered again, and the first one stays. -/
theorem gather_scatter_of_build_segment :
    let V := segmentMatrices (0 : Int) 1
    let v : TensorValue Int := .vector #v[9, 10, 11, 12]
    ∃ m cs', build V (.vector 4) = .ok m ∧ m.nodeCount = 2
      ∧ m.scatter #[1, 2, 3, 4, 5, 6, 7, 8] 1 v = .ok cs' ∧ m.gather cs' 1 = .ok v
      ∧ m.gather cs' 0 = m.gather #[1, 2, 3, 4, 5, 6, 7, 8] 0 := by
  intro V v
  have h : build V (.vector 4) = .ok (ofBlocks (.vector 4) 4 2) :=
    (build_eq_ok rfl).2 ⟨by decide, by decide, rfl, rfl⟩
  obtain ⟨-, -, hnodes, -, -, -, -, hlaws⟩ := gather_scatter_of_build h
  obtain ⟨hscatter, -⟩ := hlaws #[1, 2, 3, 4, 5, 6, 7, 8] rfl
  obtain ⟨_, cs', -, hcs', -, hgather, hother, -⟩ := hscatter 1 (by decide) v rfl
  exact ⟨_, cs', h, hnodes, hcs', hgather, hother 0 (by decide)⟩

end NodeMap

end NodalAlgebra
