/-!
# Dense matrices

Matrices of known dimensions with their entries stored row by row. Entry `(i, j)`
of a matrix with `n` columns is number `i * n + j`. An operation is given by its
entries (`ofFn`), and `get_ofFn` reads them back, so that an argument about an
operation is one about entries (`ext_get`).
-/

namespace NodalAlgebra

/-- A matrix with `m` rows and `n` columns. -/
structure DenseMatrix (m n : Nat) (α : Type) where
  /-- The entries row by row. -/
  entries : Vector α (m * n)

namespace DenseMatrix

variable {α : Type} {m n p : Nat}

/-! ## Entries -/

theorem index_lt {i j : Nat} (hi : i < m) (hj : j < n) : i * n + j < m * n := by
  have h : i * n + n ≤ m * n := by
    rw [← Nat.succ_mul]
    exact Nat.mul_le_mul_right n hi
  omega

theorem row_lt {k : Nat} (hk : k < m * n) : k / n < m :=
  Nat.div_lt_of_lt_mul (by rwa [Nat.mul_comm] at hk)

theorem col_lt {k : Nat} (hk : k < m * n) : k % n < n := by
  apply Nat.mod_lt
  rcases Nat.eq_zero_or_pos n with h | h
  · subst h
    simp at hk
  · exact h

/-- The entry in row `i` and column `j`. -/
def get (a : DenseMatrix m n α) (i : Fin m) (j : Fin n) : α :=
  a.entries[(⟨i * n + j, index_lt i.isLt j.isLt⟩ : Fin (m * n))]

/-- The matrix with the given entries. -/
def ofFn (f : Fin m → Fin n → α) : DenseMatrix m n α where
  entries := Vector.ofFn fun k => f ⟨k / n, row_lt k.isLt⟩ ⟨k % n, col_lt k.isLt⟩

@[simp] theorem get_ofFn (f : Fin m → Fin n → α) (i : Fin m) (j : Fin n) :
    (ofFn f).get i j = f i j := by
  have hn : 0 < n := Nat.lt_of_le_of_lt (Nat.zero_le _) j.isLt
  have hdiv : (i.val * n + j.val) / n = i.val := by
    rw [Nat.add_comm, Nat.add_mul_div_right _ _ hn, Nat.div_eq_of_lt j.isLt, Nat.zero_add]
  have hmod : (i.val * n + j.val) % n = j.val := by
    rw [Nat.add_comm, Nat.add_mul_mod_self_right, Nat.mod_eq_of_lt j.isLt]
  simp [get, ofFn, hdiv, hmod]

theorem entries_getElem (a : DenseMatrix m n α) {k : Nat} (hk : k < m * n) :
    a.entries[k] = a.get ⟨k / n, row_lt hk⟩ ⟨k % n, col_lt hk⟩ := by
  simp only [get, Fin.getElem_fin]
  congr 1
  exact (Nat.div_add_mod' k n).symm

/-- Matrices with equal entries are equal. -/
theorem ext_get {a b : DenseMatrix m n α} (h : ∀ i j, a.get i j = b.get i j) : a = b := by
  obtain ⟨u⟩ := a
  obtain ⟨v⟩ := b
  congr 1
  apply Vector.ext
  intro k hk
  have hu := entries_getElem (⟨u⟩ : DenseMatrix m n α) hk
  have hv := entries_getElem (⟨v⟩ : DenseMatrix m n α) hk
  exact hu.trans ((h _ _).trans hv.symm)

theorem vector_get (v : Vector α n) (i : Fin n) : v.get i = v[i] := rfl

@[simp] theorem vector_get_ofFn (f : Fin n → α) (i : Fin n) : (Vector.ofFn f).get i = f i := by
  simp [vector_get]

/-! ## Operations entry by entry -/

/-- The matrix seen as one with an equal number of columns. -/
def castCols (h : n = p) (a : DenseMatrix m n α) : DenseMatrix m p α := h ▸ a

/-- Row `i`. -/
def row (a : DenseMatrix m n α) (i : Fin m) : Vector α n := Vector.ofFn fun j => a.get i j

/-- Column `j`. -/
def col (a : DenseMatrix m n α) (j : Fin n) : Vector α m := Vector.ofFn fun i => a.get i j

/-- Rows and columns exchanged. -/
def transpose (a : DenseMatrix m n α) : DenseMatrix n m α := ofFn fun i j => a.get j i

@[simp] theorem get_transpose (a : DenseMatrix m n α) (i : Fin n) (j : Fin m) :
    a.transpose.get i j = a.get j i :=
  get_ofFn _ i j

@[simp] theorem transpose_transpose (a : DenseMatrix m n α) : a.transpose.transpose = a :=
  ext_get fun i j => by rw [get_transpose, get_transpose]

/-- The entrywise sum. -/
def add [Add α] (a b : DenseMatrix m n α) : DenseMatrix m n α :=
  ofFn fun i j => a.get i j + b.get i j

@[simp] theorem get_add [Add α] (a b : DenseMatrix m n α) (i : Fin m) (j : Fin n) :
    (a.add b).get i j = a.get i j + b.get i j :=
  get_ofFn _ i j

/-- The entrywise difference. -/
def sub [Sub α] (a b : DenseMatrix m n α) : DenseMatrix m n α :=
  ofFn fun i j => a.get i j - b.get i j

@[simp] theorem get_sub [Sub α] (a b : DenseMatrix m n α) (i : Fin m) (j : Fin n) :
    (a.sub b).get i j = a.get i j - b.get i j :=
  get_ofFn _ i j

/-- Every entry times a scalar. -/
def scale [Mul α] (a : DenseMatrix m n α) (x : α) : DenseMatrix m n α :=
  ofFn fun i j => a.get i j * x

@[simp] theorem get_scale [Mul α] (a : DenseMatrix m n α) (x : α) (i : Fin m) (j : Fin n) :
    (a.scale x).get i j = a.get i j * x :=
  get_ofFn _ i j

/-- Ones on the diagonal and zeros elsewhere. -/
def identity [Zero α] [One α] (n : Nat) : DenseMatrix n n α :=
  ofFn fun i j => if i = j then 1 else 0

@[simp] theorem get_identity [Zero α] [One α] (i j : Fin n) :
    (identity n : DenseMatrix n n α).get i j = if i = j then 1 else 0 :=
  get_ofFn _ i j

/-- The diagonal from the first row to the last. -/
def diagonal (a : DenseMatrix n n α) : List α :=
  (List.finRange n).map fun i => a.get i i

/-- The sum of the diagonal. -/
def trace [Zero α] [Add α] (a : DenseMatrix n n α) : α :=
  a.diagonal.foldl (· + ·) 0

end DenseMatrix

end NodalAlgebra
