import NodalAlgebra.Proofs.KernelShapes
import NodalAlgebra.Proofs.MatrixAlgebra

/-!
# Products as contractions

A component of a value is told by a list with one index for each axis
(`TensorValue.component`). In these terms the kernels for products are the same for all
ranks: a dot product contracts the last axis of its first operand with the first axis of
the second one, an inner product contracts all axes, and an outer product has the products
of the components at its indices, those of the first operand followed by those of the
second. The kernels compute them over exact scalars whatever loops they run
(`TensorKernel.products_contract`).
-/

namespace NodalAlgebra

variable {α : Type}

/-! ## Components by indices -/

/-- One index for each of some axes, below the dimension of the axis. -/
def Indexes (dims index : List Nat) : Prop := List.Forall₂ (· < ·) index dims

/-- The sum of a function of the indices over all of them. -/
def sumIndices [AddCommMonoid α] : List Nat → (List Nat → α) → α
  | [], f => f []
  | d :: dims, f => ∑ i ∈ Finset.range d, sumIndices dims fun index => f (i :: index)

/-- The place of a component in row-major order. -/
def Shape.place (s : Shape) (index : List Nat) : Nat :=
  (index.zip s.dims).foldl (fun p axis => p * axis.2 + axis.1) 0

theorem indexes_nil {index : List Nat} : Indexes [] index ↔ index = [] :=
  List.forall₂_nil_right_iff

theorem indexes_singleton {n : Nat} {index : List Nat} :
    Indexes [n] index ↔ ∃ i : Fin n, index = [i.val] := by
  constructor
  · intro h
    obtain ⟨i, rest, hi, hrest, rfl⟩ := List.forall₂_cons_right_iff.1 h
    rw [List.forall₂_nil_right_iff.1 hrest]
    exact ⟨⟨i, hi⟩, rfl⟩
  · intro ⟨i, hindex⟩
    rw [hindex]
    exact .cons i.isLt .nil

theorem indexes_pair {m n : Nat} {index : List Nat} :
    Indexes [m, n] index ↔ ∃ (i : Fin m) (j : Fin n), index = [i.val, j.val] := by
  constructor
  · intro h
    obtain ⟨i, rest, hi, hrest, rfl⟩ := List.forall₂_cons_right_iff.1 h
    obtain ⟨j, rfl⟩ := indexes_singleton.1 hrest
    exact ⟨⟨i, hi⟩, j, rfl⟩
  · intro ⟨i, j, hindex⟩
    rw [hindex]
    exact .cons i.isLt (.cons j.isLt .nil)

namespace TensorValue

variable [Zero α]

/-- The component of a value at a list of indices. -/
def component (a : TensorValue α) (index : List Nat) : α :=
  a.components.getD (a.shape.place index) 0

theorem component_scalar (x : α) : (scalar x).component [] = x := rfl

theorem component_vector {n : Nat} (v : Vector α n) (i : Fin n) :
    (vector v).component [i.val] = v.get i := by
  simp [component, shape, Shape.vector, Shape.place, components, DenseMatrix.vector_get]

theorem component_matrix {m n : Nat} (A : DenseMatrix m n α) (i : Fin m) (j : Fin n) :
    (matrix A).component [i.val, j.val] = A.get i j := by
  have hplace : i.val * n + j.val < m * n := DenseMatrix.index_lt i.isLt j.isLt
  simp [component, shape, Shape.matrix, Shape.place, components, DenseMatrix.get, hplace]

end TensorValue

/-! ## The products of two ranks -/

section

variable [CommRing α] {m n p : Nat}

/-- The last axis of one value and the first axis of another one are contracted. -/
def TensorValue.IsContraction (a b c : TensorValue α) : Prop :=
  ∀ d I J, a.shape.dims.getLast? = some d → Indexes a.shape.dims.dropLast I →
    Indexes b.shape.dims.tail J →
    c.component (I ++ J) = ∑ k ∈ Finset.range d, a.component (I ++ [k]) * b.component (k :: J)

namespace TensorKernel

open TensorValue

theorem contraction_vectors (u v : Vector α n) :
    (vector u).IsContraction (vector v) (scalar (DenseMatrix.dot u v)) := by
  intro d I J hd hI hJ
  obtain rfl : n = d := Option.some.inj hd
  rw [indexes_nil.1 hI, indexes_nil.1 hJ, Finset.sum_range]
  show DenseMatrix.dot u v
    = ∑ k : Fin n, (vector u).component [k.val] * (vector v).component [k.val]
  simp only [component_vector]
  exact DenseMatrix.dot_eq u v

theorem contraction_matrix_vector (A : DenseMatrix m n α) (v : Vector α n) :
    (matrix A).IsContraction (vector v) (vector (A.mulVec v)) := by
  intro d I J hd hI hJ
  obtain rfl : n = d := Option.some.inj hd
  obtain ⟨i, rfl⟩ := indexes_singleton.1 hI
  rw [indexes_nil.1 hJ, Finset.sum_range]
  show (vector (A.mulVec v)).component [i.val]
    = ∑ k : Fin n, (matrix A).component [i.val, k.val] * (vector v).component [k.val]
  simp only [component_vector, component_matrix]
  rw [DenseMatrix.get_mulVec]
  rfl

theorem contraction_vector_matrix (u : Vector α m) (B : DenseMatrix m n α) :
    (vector u).IsContraction (matrix B) (vector (DenseMatrix.vecMul u B)) := by
  intro d I J hd hI hJ
  obtain rfl : m = d := Option.some.inj hd
  obtain ⟨j, rfl⟩ := indexes_singleton.1 hJ
  rw [indexes_nil.1 hI, Finset.sum_range]
  show (vector (DenseMatrix.vecMul u B)).component [j.val]
    = ∑ k : Fin m, (vector u).component [k.val] * (matrix B).component [k.val, j.val]
  simp only [component_vector, component_matrix]
  rw [DenseMatrix.get_vecMul]
  rfl

theorem contraction_matrices (A : DenseMatrix m n α) (B : DenseMatrix n p α) :
    (matrix A).IsContraction (matrix B) (matrix (A.mul B)) := by
  intro d I J hd hI hJ
  obtain rfl : n = d := Option.some.inj hd
  obtain ⟨i, rfl⟩ := indexes_singleton.1 hI
  obtain ⟨j, rfl⟩ := indexes_singleton.1 hJ
  rw [Finset.sum_range]
  show (matrix (A.mul B)).component [i.val, j.val]
    = ∑ k : Fin n, (matrix A).component [i.val, k.val] * (matrix B).component [k.val, j.val]
  simp only [component_matrix]
  rw [← DenseMatrix.toMatrix_apply, DenseMatrix.toMatrix_mul, Matrix.mul_apply]
  rfl

/-! ## The kernels -/

theorem dot_vectors (u v : Vector α n) :
    dot [vector u, vector v] = .ok (scalar (DenseMatrix.dot u v)) := dif_pos rfl

theorem dot_matrix_vector (A : DenseMatrix m n α) (v : Vector α n) :
    dot [matrix A, vector v] = .ok (vector (A.mulVec v)) := dif_pos rfl

theorem dot_vector_matrix (u : Vector α m) (B : DenseMatrix m n α) :
    dot [vector u, matrix B] = .ok (vector (DenseMatrix.vecMul u B)) := dif_pos rfl

theorem dot_matrices (A : DenseMatrix m n α) (B : DenseMatrix n p α) :
    dot [matrix A, matrix B] = .ok (matrix (A.mul B)) := dif_pos rfl

theorem inner_of_vectors (u v : Vector α n) :
    inner [vector u, vector v] = .ok (scalar (DenseMatrix.dot u v)) := dif_pos rfl

theorem inner_of_matrices (A B : DenseMatrix m n α) :
    inner [matrix A, matrix B] = .ok (scalar (DenseMatrix.inner A B)) := dif_pos ⟨rfl, rfl⟩

/-- On operands of accepted shapes the dot product contracts the inner axes. -/
theorem dot_contracts {a b : TensorValue α} {s : Shape}
    (h : Operator.dot.binaryShape a.shape b.shape = .ok s) :
    ∃ c, dot [a, b] = .ok c ∧ c.shape = s ∧ a.IsContraction b c := by
  simp only [Operator.binaryShape] at h
  split at h
  case isFalse => cases h
  case isTrue hdims =>
    cases h
    obtain ⟨ha, hb, hinner⟩ := hdims
    cases a with
    | scalar x => exact absurd rfl ha
    | vector u =>
        cases b with
        | scalar y => exact absurd rfl hb
        | vector v =>
            obtain rfl := Option.some.inj hinner
            exact ⟨_, dot_vectors u v, rfl, contraction_vectors u v⟩
        | matrix B =>
            obtain rfl := Option.some.inj hinner
            exact ⟨_, dot_vector_matrix u B, rfl, contraction_vector_matrix u B⟩
    | matrix A =>
        cases b with
        | scalar y => exact absurd rfl hb
        | vector v =>
            obtain rfl := Option.some.inj hinner
            exact ⟨_, dot_matrix_vector A v, rfl, contraction_matrix_vector A v⟩
        | matrix B =>
            obtain rfl := Option.some.inj hinner
            exact ⟨_, dot_matrices A B, rfl, contraction_matrices A B⟩

theorem dot_eq_sumIndices (u v : Vector α n) :
    DenseMatrix.dot u v
      = sumIndices [n] fun I => (vector u).component I * (vector v).component I := by
  show _ = ∑ k ∈ Finset.range n, (vector u).component [k] * (vector v).component [k]
  rw [Finset.sum_range, DenseMatrix.dot_eq]
  simp only [component_vector]
  rfl

theorem inner_eq_sumIndices (A B : DenseMatrix m n α) :
    DenseMatrix.inner A B
      = sumIndices [m, n] fun I => (matrix A).component I * (matrix B).component I := by
  show _ = ∑ i ∈ Finset.range m, ∑ j ∈ Finset.range n,
    (matrix A).component [i, j] * (matrix B).component [i, j]
  have hrow : ∀ i : Fin m, ∑ j ∈ Finset.range n,
      (matrix A).component [i.val, j] * (matrix B).component [i.val, j]
        = ∑ j, A.get i j * B.get i j := by
    intro i
    rw [Finset.sum_range]
    simp only [component_matrix]
  rw [Finset.sum_range, DenseMatrix.inner_eq]
  simp only [hrow]
  -- the loop runs through the columns, the components through the rows
  exact Finset.sum_comm

/-- On operands of one shape the inner product contracts all axes. -/
theorem inner_contracts {a b : TensorValue α} (h : a.shape = b.shape) :
    inner [a, b]
      = .ok (.scalar (sumIndices a.shape.dims fun I => a.component I * b.component I)) := by
  cases a <;> cases b <;> cases h
  case scalar.scalar.refl x y => rfl
  case vector.vector.refl u v =>
    rw [inner_of_vectors, dot_eq_sumIndices]
    rfl
  case matrix.matrix.refl A B =>
    rw [inner_of_matrices, inner_eq_sumIndices]
    rfl

/-- A value whose components are multiples of those of another one. -/
theorem component_scaled_vector (v : Vector α n) (x : α) (i : Fin n) :
    (vector (v.map (· * x))).component [i.val] = (vector v).component [i.val] * x := by
  rw [component_vector, component_vector]
  simp [DenseMatrix.vector_get]

theorem component_scaled_matrix (A : DenseMatrix m n α) (x : α) (i : Fin m) (j : Fin n) :
    (matrix (A.scale x)).component [i.val, j.val] = (matrix A).component [i.val, j.val] * x := by
  rw [component_matrix, component_matrix, DenseMatrix.scale, DenseMatrix.get_ofFn]

/-- The outer product of operands whose ranks add up to at most two has the products of
their components. -/
theorem outer_multiplies {a b : TensorValue α} (hrank : a.shape.rank + b.shape.rank ≤ 2) :
    ∃ c, outer [a, b] = .ok c ∧ c.shape = ⟨a.shape.dims ++ b.shape.dims⟩
      ∧ ∀ I J, Indexes a.shape.dims I → Indexes b.shape.dims J →
        c.component (I ++ J) = a.component I * b.component J := by
  cases a with
  | scalar x =>
      cases b with
      | scalar y =>
          refine ⟨_, rfl, rfl, fun I J hI hJ => ?_⟩
          rw [indexes_nil.1 hI, indexes_nil.1 hJ]
          rfl
      | vector v =>
          refine ⟨_, rfl, rfl, fun I J hI hJ => ?_⟩
          obtain ⟨i, rfl⟩ := indexes_singleton.1 hJ
          rw [indexes_nil.1 hI, List.nil_append, component_scaled_vector, component_scalar,
            mul_comm]
      | matrix B =>
          refine ⟨_, rfl, rfl, fun I J hI hJ => ?_⟩
          obtain ⟨i, j, rfl⟩ := indexes_pair.1 hJ
          rw [indexes_nil.1 hI, List.nil_append, component_scaled_matrix, component_scalar,
            mul_comm]
  | vector u =>
      cases b with
      | scalar y =>
          refine ⟨_, rfl, rfl, fun I J hI hJ => ?_⟩
          obtain ⟨i, rfl⟩ := indexes_singleton.1 hI
          rw [indexes_nil.1 hJ, List.append_nil, component_scaled_vector, component_scalar]
      | vector v =>
          refine ⟨_, rfl, rfl, fun I J hI hJ => ?_⟩
          obtain ⟨i, rfl⟩ := indexes_singleton.1 hI
          obtain ⟨j, rfl⟩ := indexes_singleton.1 hJ
          show (matrix (DenseMatrix.outer u v)).component [i.val, j.val] = _
          rw [component_matrix, component_vector, component_vector, DenseMatrix.outer,
            DenseMatrix.get_ofFn]
      | matrix B => exact absurd hrank (show ¬ 1 + 2 ≤ 2 by decide)
  | matrix A =>
      cases b with
      | scalar y =>
          refine ⟨_, rfl, rfl, fun I J hI hJ => ?_⟩
          obtain ⟨i, j, rfl⟩ := indexes_pair.1 hI
          rw [indexes_nil.1 hJ, List.append_nil, component_scaled_matrix, component_scalar]
      | vector v => exact absurd hrank (show ¬ 2 + 1 ≤ 2 by decide)
      | matrix B => exact absurd hrank (show ¬ 2 + 2 ≤ 2 by decide)

/-- The cross product alternates: its components are the differences of the products of the
next two components, in cyclic order. -/
theorem cross_alternates (u v : Vector α 3) :
    ∃ w : Vector α 3, cross [vector u, vector v] = .ok (vector w)
      ∧ (∀ i, w.get i = u.get (i + 1) * v.get (i + 2) - u.get (i + 2) * v.get (i + 1))
      ∧ cross [vector v, vector u] = .ok (vector (w.map (- ·)))
      ∧ dot [vector u, vector w] = .ok (scalar 0) := by
  refine ⟨DenseMatrix.cross u v, rfl, ?_, ?_, ?_⟩
  · intro i
    fin_cases i <;> rfl
  · have hneg : DenseMatrix.cross v u = (DenseMatrix.cross u v).map (- ·) := by
      rw [← DenseMatrix.vector_get_inj, DenseMatrix.get_cross, ← cross_anticomm,
        ← DenseMatrix.get_cross]
      funext i
      simp [DenseMatrix.vector_get]
    rw [← hneg]
    rfl
  · rw [dot_vectors, DenseMatrix.dot_eq, DenseMatrix.get_cross, dot_self_cross]

/-! ## Products and transposes -/

/-- A vector times a matrix is the transposed matrix times the vector. -/
theorem dot_vector_eq (v : Vector α m) (A : DenseMatrix m n α) :
    dot [vector v, matrix A]
      = (do let B ← transpose [matrix A]; dot [B, vector v]) := by
  show _ = dot [matrix A.transpose, vector v]
  rw [dot_vector_matrix, dot_matrix_vector]
  have h : DenseMatrix.vecMul v A = A.transpose.mulVec v := by
    rw [← DenseMatrix.vector_get_inj, DenseMatrix.get_vecMul, DenseMatrix.get_mulVec,
      DenseMatrix.toMatrix_transpose, Matrix.mulVec_transpose]
  rw [h]

/-- The transpose of a product is the product of the transposes in the other order. -/
theorem transpose_dot (A : DenseMatrix m n α) (B : DenseMatrix n p α) :
    (do let C ← dot [matrix A, matrix B]; transpose [C])
      = (do
        let At ← transpose [matrix A]
        let Bt ← transpose [matrix B]
        dot [Bt, At]) := by
  show _ = dot [matrix B.transpose, matrix A.transpose]
  rw [dot_matrices, dot_matrices]
  have h : (A.mul B).transpose = B.transpose.mul A.transpose := by
    rw [← DenseMatrix.toMatrix_inj, DenseMatrix.toMatrix_transpose, DenseMatrix.toMatrix_mul,
      DenseMatrix.toMatrix_mul, DenseMatrix.toMatrix_transpose, DenseMatrix.toMatrix_transpose,
      Matrix.transpose_mul]
  rw [← h]
  rfl

/-- The inner product of two matrices is the trace of the first one, transposed, times the
second one. -/
theorem inner_eq_trace (A B : DenseMatrix m n α) :
    inner [matrix A, matrix B]
      = (do
        let At ← transpose [matrix A]
        let C ← dot [At, matrix B]
        trace [C]) := by
  show _ = (do let C ← dot [matrix A.transpose, matrix B]; trace [C])
  rw [inner_of_matrices, dot_matrices]
  show _ = trace [matrix (A.transpose.mul B)]
  rw [trace, ofInvariant_matrix, DenseMatrix.trace_eq, DenseMatrix.toMatrix_mul,
    DenseMatrix.inner_eq, DenseMatrix.toMatrix_transpose]
  rfl

/-- The kernels for products compute contractions over exact scalars, whatever loops they
run through. A dot product of vectors and matrices whose inner axes have one dimension is
the sum over these axes, an inner product of values of one shape is the sum over all
indices, an outer product has the products of the components at its indices, and a cross
product alternates. So a vector can be multiplied to a matrix from either side, transposing
exchanges the factors of a product, and an inner product of matrices is a trace. -/
theorem products_contract :
    (∀ (a b : TensorValue α) (s : Shape), Operator.dot.binaryShape a.shape b.shape = .ok s →
      ∃ c, dot [a, b] = .ok c ∧ c.shape = s ∧ a.IsContraction b c)
    ∧ (∀ a b : TensorValue α, a.shape = b.shape →
      inner [a, b]
        = .ok (.scalar (sumIndices a.shape.dims fun I => a.component I * b.component I)))
    ∧ (∀ a b : TensorValue α, a.shape.rank + b.shape.rank ≤ 2 →
      ∃ c, outer [a, b] = .ok c ∧ c.shape = ⟨a.shape.dims ++ b.shape.dims⟩
        ∧ ∀ I J, Indexes a.shape.dims I → Indexes b.shape.dims J →
          c.component (I ++ J) = a.component I * b.component J)
    ∧ (∀ u v : Vector α 3, ∃ w : Vector α 3, cross [vector u, vector v] = .ok (vector w)
      ∧ (∀ i, w.get i = u.get (i + 1) * v.get (i + 2) - u.get (i + 2) * v.get (i + 1))
      ∧ cross [vector v, vector u] = .ok (vector (w.map (- ·)))
      ∧ dot [vector u, vector w] = .ok (scalar 0))
    ∧ (∀ (m n : Nat) (v : Vector α m) (A : DenseMatrix m n α),
      dot [vector v, matrix A]
        = (do let B ← transpose [matrix A]; dot [B, vector v]))
    ∧ (∀ (m n p : Nat) (A : DenseMatrix m n α) (B : DenseMatrix n p α),
      (do let C ← dot [matrix A, matrix B]; transpose [C])
        = (do
          let At ← transpose [matrix A]
          let Bt ← transpose [matrix B]
          dot [Bt, At]))
    ∧ ∀ (m n : Nat) (A B : DenseMatrix m n α),
      inner [matrix A, matrix B]
        = (do
          let At ← transpose [matrix A]
          let C ← dot [At, matrix B]
          trace [C]) :=
  ⟨fun _ _ _ => dot_contracts, fun _ _ => inner_contracts, fun _ _ => outer_multiplies,
    cross_alternates, fun _ _ => dot_vector_eq, fun _ _ _ => transpose_dot,
    fun _ _ => inner_eq_trace⟩

end TensorKernel

end

/-- A matrix with two rows times a vector. -/
theorem TensorKernel.products_contract_matrix :
    let A : DenseMatrix 2 3 Int := ⟨#v[1, 2, 3, 4, 5, 6]⟩
    ∃ c : TensorValue Int, dot [.matrix A, .vector #v[1, 0, 2]] = .ok c ∧ c.shape = .vector 2
      ∧ c.component [1] = 4 * 1 + 5 * 0 + 6 * 2 := by
  intro A
  obtain ⟨c, hc, hshape, hcomponents⟩ :=
    (products_contract (α := Int)).1 (.matrix A) (.vector #v[1, 0, 2]) (.vector 2) rfl
  have hrow := hcomponents 3 [1] [] rfl (indexes_singleton.2 ⟨1, rfl⟩) (indexes_nil.2 rfl)
  refine ⟨c, hc, hshape, hrow.trans ?_⟩
  simp [A, Finset.sum_range_succ, TensorValue.component, TensorValue.components,
    TensorValue.shape, Shape.matrix, Shape.vector, Shape.place]

end NodalAlgebra
