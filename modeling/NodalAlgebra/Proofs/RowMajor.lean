import NodalAlgebra.Proofs.NodeRows
import NodalAlgebra.Proofs.Overflow

/-!
# Values in a column-major memory

The matrices of a linear algebra library lie in memory column by column, while the
components of a value are told row by row. A value is therefore read by a loop over the
rows that puts each component into its place (`StoredTensor.read?`), and written by a loop
that fetches the components from there (`StoredTensor.write`). The places of the rows in
order go once through the whole memory (`DenseMatrix.mem_rowPlaces`,
`DenseMatrix.nodup_rowPlaces`), so the loops read and write the components
(`TensorValue.read?_stored`, `TensorValue.write_stored`), and each undoes the other
(`TensorValue.row_major_round_trip`).
-/

namespace NodalAlgebra

variable {α : Type}

/-! ## Places in memory -/

namespace DenseMatrix

variable {r c : Nat}

/-- Where the entries of a matrix lie in a memory that has the columns one after the other,
listed row by row. -/
def rowPlaces (r c : Nat) : List Nat :=
  (List.range r).flatMap fun i => (List.range c).map fun j => j * r + i

/-- The entries column by column. -/
def columnMajor (a : DenseMatrix r c α) : Array α := a.transpose.entries.toArray

theorem mem_rowPlaces {p : Nat} : p ∈ rowPlaces r c ↔ p < r * c := by
  simp only [rowPlaces, List.mem_flatMap, List.mem_map, List.mem_range]
  constructor
  · rintro ⟨i, hi, j, hj, rfl⟩
    rw [Nat.mul_comm r c]
    exact index_lt hj hi
  · intro hp
    rw [Nat.mul_comm] at hp
    exact ⟨p % r, col_lt hp, p / r, row_lt hp, Nat.div_add_mod' p r⟩

theorem rowPlaces_eq_map (r c : Nat) :
    rowPlaces r c = (List.range (r * c)).map fun k => k % c * r + k / c := by
  have hblock : ∀ b ∈ (List.range r).map fun i => (List.range c).map fun j => j * r + i,
      b.length = c := by
    intro b hb
    obtain ⟨i, -, rfl⟩ := List.mem_map.1 hb
    rw [List.length_map, List.length_range]
  apply List.ext_getElem?
  intro k
  rw [rowPlaces, List.flatMap_def]
  by_cases hk : k < r * c
  · have hrow : k / c < r := row_lt hk
    have hcol : k % c < c := col_lt hk
    rw [getElem?_flatten_block hblock (by simpa using hk)]
    simp [hk, hrow, hcol]
  · have hlength := length_flatten_block hblock
    rw [List.length_map, List.length_range] at hlength
    rw [List.getElem?_eq_none (by omega), List.getElem?_eq_none (by simp; omega)]

/-- No two entries share a place: the place tells the row and the column. -/
theorem nodup_rowPlaces (r c : Nat) : (rowPlaces r c).Nodup := by
  rw [rowPlaces_eq_map]
  refine List.Nodup.map_on ?_ List.nodup_range
  intro k hk l hl h
  rw [List.mem_range] at hk hl
  have hr : 0 < r := Nat.lt_of_le_of_lt (Nat.zero_le _) (row_lt hk)
  have hrow : k / c = l / c := by
    have hmod := congrArg (· % r) h
    simpa [Nat.mod_eq_of_lt (row_lt hk), Nat.mod_eq_of_lt (row_lt hl)] using hmod
  have hcol : k % c = l % c := by
    rw [hrow] at h
    exact Nat.eq_of_mul_eq_mul_right hr (Nat.add_right_cancel h)
  calc k = k / c * c + k % c := (Nat.div_add_mod' k c).symm
    _ = l / c * c + l % c := by rw [hrow, hcol]
    _ = l := Nat.div_add_mod' l c

@[simp] theorem size_columnMajor (a : DenseMatrix r c α) : a.columnMajor.size = r * c := by
  rw [columnMajor, Vector.size_toArray, Nat.mul_comm]

/-- Entry `(i, j)` is at place `j * r + i` of the memory. -/
theorem getElem?_columnMajor (a : DenseMatrix r c α) (i : Fin r) (j : Fin c) :
    a.columnMajor[j.val * r + i.val]? = some (a.get i j) := by
  have hplace : j.val * r + i.val < c * r := index_lt j.isLt i.isLt
  rw [columnMajor, Vector.getElem?_toArray, Vector.getElem?_eq_getElem hplace]
  exact congrArg some (get_ofFn (fun j i => a.get i j) j i)

/-- The places of the rows hold the components. -/
theorem map_rowPlaces (a : DenseMatrix r c α) :
    (rowPlaces r c).map (fun p => a.columnMajor[p]?) = a.entries.toArray.toList.map some := by
  apply List.ext_getElem?
  intro k
  rw [rowPlaces_eq_map, List.map_map, List.getElem?_map, List.getElem?_map]
  by_cases hk : k < r * c
  · have hentry := getElem?_columnMajor a ⟨k / c, row_lt hk⟩ ⟨k % c, col_lt hk⟩
    rw [← entries_getElem a hk] at hentry
    rw [List.getElem?_range hk]
    simpa [hk] using hentry
  · rw [List.getElem?_eq_none (by simpa using hk), List.getElem?_eq_none (by simpa using hk)]
    rfl

end DenseMatrix

/-! ## Stored values -/

/-- A value whose components lie in memory, those of a matrix column by column. -/
inductive StoredTensor (α : Type) where
  | scalar (x : α)
  | vector (memory : Array α)
  | matrix (rows cols : Nat) (memory : Array α)

namespace StoredTensor

/-- The dimensions of a stored value. -/
def shape : StoredTensor α → Shape
  | .scalar _ => .scalar
  | .vector memory => .vector memory.size
  | .matrix r c _ => .matrix r c

/-- Puts components that are told row by row into a memory of their number. -/
def fillRows (r c : Nat) (values memory : Array α) : Except Fault (Array α) :=
  ((DenseMatrix.rowPlaces r c).zip values.toList).foldlM
    (fun memory entry => NodeMap.writeAt memory entry.1 entry.2) memory

/-- Copies the entries of a matrix row by row into a table. -/
def copyRows (r c : Nat) (memory out : Array α) : Except Fault (Array α) :=
  ((DenseMatrix.rowPlaces r c).zip (List.range out.size)).foldlM
    (fun out entry => do NodeMap.writeAt out entry.2 (← NodeMap.readAt memory entry.1)) out

/-- The stored value of the given shape and components, if there is one. A matrix is put
into the memory that is there for it, whatever it holds. -/
def read? (s : Shape) (values memory : Array α) : Except Fault (Option (StoredTensor α)) := do
  let count ← s.componentCount?
  if values.size = count then
    match s.dims with
    | [] => return some (.scalar (← NodeMap.readAt values 0))
    | [n] => return some (.vector (values.extract 0 n))
    | [r, c] => return some (.matrix r c (← fillRows r c values memory))
    | _ => return none
  else return none

/-- The components in row-major order, written over a table of their number. -/
def write (t : StoredTensor α) (out : Array α) : Except Fault (Array α) := do
  let count ← t.shape.componentCount?
  if out.size = count then
    match t with
    | .scalar x => NodeMap.writeAt out 0 x
    | .vector memory => return memory
    | .matrix r c memory => copyRows r c memory out
  else throw .lengthMismatch

end StoredTensor

namespace TensorValue

/-- The value as it is stored. -/
def stored : TensorValue α → StoredTensor α
  | .scalar x => .scalar x
  | .vector v => .vector v.toArray
  | .matrix (r := r) (c := c) a => .matrix r c a.columnMajor

theorem shape_stored (t : TensorValue α) : t.stored.shape = t.shape := by
  cases t with
  | scalar x => rfl
  | vector v => exact congrArg Shape.vector v.size_toArray
  | matrix a => rfl

/-! ## Reading -/

/-- Writing once to every place of a table turns it into the table that holds the values
there, whatever it held. -/
theorem foldlM_writeAt_of_forall_mem {places : List Nat} {values : List α} {old new : Array α}
    (hnodup : places.Nodup) (hmem : ∀ p, p ∈ places ↔ p < old.size) (hsize : new.size = old.size)
    (hnew : places.map (fun p => new[p]?) = values.map some) :
    (places.zip values).foldlM (fun cs entry => NodeMap.writeAt cs entry.1 entry.2) old
      = .ok new := by
  have hlength : places.length = values.length := by
    simpa only [List.length_map] using congrArg List.length hnew
  obtain ⟨cs, hcs, hover⟩ := NodeMap.exists_foldlM_writeAt hnodup (fun p => (hmem p).1) hlength
  have hall : Overwritten places values old new := by
    refine ⟨hsize, hnew, fun p hp => ?_⟩
    -- no place is left out
    have hp : old.size ≤ p := Nat.le_of_not_lt fun hlt => hp ((hmem p).2 hlt)
    rw [Array.getElem?_eq_none (by omega), Array.getElem?_eq_none hp]
  rw [hcs, hover.unique hall]

/-- Whatever the memory held, it ends up with the entries column by column. -/
theorem fillRows_eq {r c : Nat} (a : DenseMatrix r c α) {memory : Array α}
    (hmemory : memory.size = r * c) :
    StoredTensor.fillRows r c a.entries.toArray memory = .ok a.columnMajor := by
  refine foldlM_writeAt_of_forall_mem (DenseMatrix.nodup_rowPlaces r c) ?_ ?_ a.map_rowPlaces
  · intro p
    rw [hmemory, DenseMatrix.mem_rowPlaces]
  · rw [a.size_columnMajor, hmemory]

/-- The components of a value are read into what is stored for it. -/
theorem read?_components_stored (t : TensorValue α)
    (hcount : t.shape.componentCount? = .ok t.components.size) {memory : Array α}
    (hmemory : memory.size = t.components.size) :
    StoredTensor.read? t.shape t.components memory = .ok (some t.stored) := by
  rw [StoredTensor.read?, hcount, ok_bind, if_pos rfl]
  cases t with
  | scalar x => rfl
  | vector v =>
      show Except.ok (some (StoredTensor.vector (v.toArray.extract 0 _))) = _
      rw [Array.extract_eq_self_of_le (Nat.le_of_eq v.size_toArray)]
      rfl
  | @matrix r c a =>
      have hfill := fillRows_eq a (hmemory.trans a.entries.size_toArray)
      show (StoredTensor.fillRows r c a.entries.toArray memory
        >>= fun memory => pure (some (StoredTensor.matrix r c memory))) = _
      rw [hfill]
      rfl

/-- Reading into memory is reading. -/
theorem read?_stored (s : Shape) {values memory : Array α} (hmemory : memory.size = values.size) :
    StoredTensor.read? s values memory = (ofRowMajor? s values).map fun t => t.map stored := by
  cases hcount : s.componentCount? with
  | error cause => rw [StoredTensor.read?, ofRowMajor?, hcount]; rfl
  | ok count =>
      by_cases hsize : values.size = count
      · subst hsize
        by_cases hrank : s.rank ≤ 2
        · obtain ⟨t, ht⟩ := exists_read? hrank (Shape.componentCount_eq hcount).symm
          obtain ⟨hshape, rfl⟩ := read?_eq_some.1 ht
          obtain rfl : t.shape = s := hshape
          rw [read?_components_stored t hcount hmemory, ofRowMajor?_eq_some.2 ⟨hcount, rfl, rfl⟩]
          rfl
        · -- values of higher rank are neither stored nor read
          obtain ⟨l, m, n, dims, rfl⟩ := Shape.exists_dims_of_rank (Nat.lt_of_not_le hrank)
          rw [StoredTensor.read?, ofRowMajor?, hcount, ok_bind, ok_bind, if_pos rfl, if_pos rfl]
          rfl
      · rw [StoredTensor.read?, ofRowMajor?, hcount, ok_bind, ok_bind, if_neg hsize,
          if_neg hsize]
        rfl

/-! ## Writing -/

/-- Fetching each component before it is written makes no difference. -/
theorem foldlM_readAt_writeAt {memory : Array α} {places indices : List Nat} {values : List α}
    (h : places.map (fun p => memory[p]?) = values.map some) (out : Array α) :
    (places.zip indices).foldlM
        (fun out entry => do NodeMap.writeAt out entry.2 (← NodeMap.readAt memory entry.1)) out
      = (indices.zip values).foldlM (fun out entry => NodeMap.writeAt out entry.1 entry.2) out := by
  induction places generalizing indices values out with
  | nil =>
      obtain rfl : values = [] := by simpa using h.symm
      simp
  | cons p places ih =>
      cases values with
      | nil => simp at h
      | cons x values =>
          rw [List.map_cons, List.map_cons, List.cons.injEq] at h
          obtain ⟨hx, h⟩ := h
          cases indices with
          | nil => rfl
          | cons i indices =>
              simp only [List.zip_cons_cons, List.foldlM_cons, NodeMap.readAt_eq_ok.2 hx, ok_bind]
              exact bind_congr fun out => ih h out

theorem map_getElem?_range (values : Array α) :
    (List.range values.size).map (fun i => values[i]?) = values.toList.map some := by
  apply List.ext_getElem (by simp)
  intro i hi _
  have hsize : i < values.size := by simpa using hi
  simp [hsize]

/-- A table of the number of the entries ends up with the components. -/
theorem copyRows_eq {r c : Nat} (a : DenseMatrix r c α) {out : Array α}
    (hout : out.size = r * c) :
    StoredTensor.copyRows r c a.columnMajor out = .ok a.entries.toArray := by
  have hsize : out.size = a.entries.toArray.size := hout.trans a.entries.size_toArray.symm
  rw [StoredTensor.copyRows, foldlM_readAt_writeAt a.map_rowPlaces]
  refine foldlM_writeAt_of_forall_mem List.nodup_range (fun i => List.mem_range) hsize.symm ?_
  rw [hsize, map_getElem?_range]

/-- Writing from memory is writing. -/
theorem write_stored (t : TensorValue α) (out : Array α) :
    t.stored.write out = t.writeRowMajor out.size := by
  unfold StoredTensor.write writeRowMajor
  rw [shape_stored]
  cases hcount : t.shape.componentCount? with
  | error cause => rfl
  | ok count =>
      obtain rfl := Shape.componentCount_eq hcount
      rw [ok_bind, ok_bind]
      split
      · rename_i hsize
        cases t with
        | scalar x =>
            obtain ⟨y, rfl⟩ := Array.size_eq_one_iff.1 hsize
            rfl
        | vector v => rfl
        | matrix a =>
            have hcomponents := (TensorValue.matrix a).size_components
            exact copyRows_eq a (hsize.trans (hcomponents.symm.trans a.entries.size_toArray))
      · rfl

end TensorValue

/-! ## The round trip -/

namespace Shape

/-- The dimensions are sizes, and so is the number of components. -/
structure Sized (s : Shape) : Prop where
  dims_lt : ∀ d ∈ s.dims, d < Size.limit
  componentCount_lt : s.componentCount < Size.limit

/-- Up to rank two nothing but the dimensions and their product has to be counted. -/
theorem Sized.counted {s : Shape} (h : s.Sized) (hrank : s.rank ≤ 2) :
    s.componentCount? = .ok s.componentCount := by
  obtain ⟨dims⟩ := s
  match dims, hrank with
  | [], _ => rfl
  | [n], _ =>
      have hn : n < Size.limit := h.dims_lt n (by simp)
      rw [componentCount?, Size.product?_singleton_eq_ok]
      exact ⟨hn, by simp [componentCount]⟩
  | [r, c], _ =>
      have hr : r < Size.limit := h.dims_lt r (by simp)
      have hproduct : r * c < Size.limit := by simpa [componentCount] using h.componentCount_lt
      rw [componentCount?, Size.product?_pair_eq_ok]
      exact ⟨hr, hproduct, by simp [componentCount]⟩

end Shape

namespace TensorValue

/-- Components are those of a value of the given shape exactly if the rank is at most two and
their number is right. -/
theorem exists_ofRowMajor?_iff {s : Shape} (hs : s.Sized) {values : Array α} :
    (∃ t, ofRowMajor? s values = .ok (some t)) ↔
      s.rank ≤ 2 ∧ values.size = s.componentCount := by
  constructor
  · rintro ⟨t, ht⟩
    obtain ⟨-, rfl, rfl⟩ := ofRowMajor?_eq_some.1 ht
    exact ⟨t.rank_shape_le, t.size_components⟩
  · rintro ⟨hrank, hsize⟩
    obtain ⟨t, ht⟩ := exists_read? hrank hsize
    exact ⟨t, ofRowMajor?_eq_some.2 ⟨hsize ▸ hs.counted hrank, read?_eq_some.1 ht⟩⟩

/-- Writing a value over a table of its size leaves its components. -/
theorem writeRowMajor_eq (t : TensorValue α) (ht : t.shape.Sized) :
    t.writeRowMajor t.shape.componentCount = .ok t.components := by
  rw [writeRowMajor, ht.counted t.rank_shape_le, ok_bind, if_pos rfl]
  rfl

/-- For a shape whose dimensions and number of components are sizes: a value is read exactly
if the rank is at most two and there are as many components as the shape has; otherwise none
is read, unless the dimensions multiply to more than a size on the way to a zero. A value
that is read has the shape, and writing it over a table of the same length gives the
components back. A value that is written is read again. The memory of a matrix has component
`i * c + j` at place `j * r + i`, and what it held before does not matter. -/
theorem row_major_round_trip {s : Shape} (hs : s.Sized) (values : Array α) :
    ((∃ t, ofRowMajor? s values = .ok (some t)) ↔ s.rank ≤ 2 ∧ values.size = s.componentCount)
    ∧ (s.Counted → ¬ (s.rank ≤ 2 ∧ values.size = s.componentCount) →
      ofRowMajor? s values = .ok none)
    ∧ (∀ memory : Array α, memory.size = values.size →
      StoredTensor.read? s values memory = (ofRowMajor? s values).map fun t => t.map stored)
    ∧ (∀ t, ofRowMajor? s values = .ok (some t) →
      t.shape = s ∧ t.stored.shape = s ∧ ∀ out : Array α, out.size = values.size →
        t.writeRowMajor out.size = .ok values ∧ t.stored.write out = .ok values)
    ∧ ∀ t : TensorValue α, t.shape.Sized → ∀ out : Array α, out.size = t.shape.componentCount →
      ∃ components, t.stored.write out = .ok components
        ∧ t.writeRowMajor out.size = .ok components
        ∧ ofRowMajor? t.shape components = .ok (some t)
        ∧ ∀ r c memory, t.stored = .matrix r c memory → ∀ i < r, ∀ j < c,
          memory[j * r + i]? = components[i * c + j]? := by
  refine ⟨exists_ofRowMajor?_iff hs, ?_, fun _ hmemory => read?_stored s hmemory, ?_, ?_⟩
  · intro hcounted hnot
    rw [← exists_ofRowMajor?_iff hs] at hnot
    have hcount := Shape.componentCount?_eq_ok.2 ⟨hcounted, rfl⟩
    cases hread : ofRowMajor? s values with
    | error cause => simp [ofRowMajor?, hcount] at hread
    | ok t =>
        cases t with
        | none => rfl
        | some t => exact absurd ⟨t, hread⟩ hnot
  · intro t ht
    obtain ⟨-, rfl, rfl⟩ := ofRowMajor?_eq_some.1 ht
    refine ⟨rfl, t.shape_stored, fun out hout => ?_⟩
    have hwrite := t.writeRowMajor_eq hs
    rw [← t.size_components, ← hout] at hwrite
    exact ⟨hwrite, (t.write_stored out).trans hwrite⟩
  · intro t ht out hout
    have hwrite := t.writeRowMajor_eq ht
    rw [← hout] at hwrite
    have hcount := ht.counted t.rank_shape_le
    rw [← t.size_components] at hcount
    refine ⟨t.components, (t.write_stored out).trans hwrite, hwrite,
      ofRowMajor?_eq_some.2 ⟨hcount, rfl, rfl⟩, ?_⟩
    intro r c memory hstored i hi j hj
    cases t with
    | scalar x => cases hstored
    | vector v => cases hstored
    | matrix a =>
        cases hstored
        have hplace : i * c + j < r * c := DenseMatrix.index_lt hi hj
        rw [a.getElem?_columnMajor ⟨i, hi⟩ ⟨j, hj⟩, components, Vector.getElem?_toArray,
          Vector.getElem?_eq_getElem hplace]
        rfl

/-- A matrix with two rows and three columns. -/
theorem row_major_round_trip_matrix :
    let values : Array Int := #[1, 2, 3, 4, 5, 6]
    (Shape.matrix 2 3).Sized ∧ ∃ t, ofRowMajor? (.matrix 2 3) values = .ok (some t)
      ∧ t.shape = .matrix 2 3 ∧ t.stored = .matrix 2 3 #[1, 4, 2, 5, 3, 6]
      ∧ t.stored.write #[0, 0, 0, 0, 0, 0] = .ok values := by
  intro values
  have hs : (Shape.matrix 2 3).Sized := by
    refine ⟨?_, by decide⟩
    intro d hd
    rcases List.mem_pair.1 hd with rfl | rfl <;> decide
  obtain ⟨hiff, -, hmemory, hwrite, -⟩ := row_major_round_trip hs values
  obtain ⟨t, ht⟩ := hiff.2 ⟨by decide, rfl⟩
  obtain ⟨hshape, -, hout⟩ := hwrite t ht
  have hstored := hmemory #[0, 0, 0, 0, 0, 0] rfl
  rw [ht] at hstored
  exact ⟨hs, t, ht, hshape, (Option.some.inj (Except.ok.inj hstored)).symm,
    (hout #[0, 0, 0, 0, 0, 0] rfl).2⟩

end TensorValue

end NodalAlgebra
