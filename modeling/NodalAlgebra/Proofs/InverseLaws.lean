import Mathlib.LinearAlgebra.Matrix.NonsingularInverse
import NodalAlgebra.Proofs.ConstructedValues
import NodalAlgebra.Proofs.Contractions
import NodalAlgebra.Proofs.Nodewise
import NodalAlgebra.Scalar.Real

/-!
# Inverses and cofactors

What a solver of linear algebra has to keep so that inverses and cofactors obey their laws
(`LinearSolver.ExactAt`): over exact scalars it has the determinant of linear algebra and,
unless this is zero, a two-sided inverse. Then the inverse and the cofactors of a function
of square matrices have values exactly if its determinant is zero at no node, and these
satisfy the laws at every node (`evaluate_inverse_laws`).
-/

namespace NodalAlgebra

variable {α : Type} {n : Nat}

/-- Determinants and inverses of the matrices of a size are those of linear algebra. -/
structure LinearSolver.ExactAt (α : Type) [Field α] [LinearSolver α] (n : Nat) : Prop where
  determinant_eq : ∀ A : DenseMatrix n n α, LinearSolver.determinant A = A.toMatrix.det
  /-- An inverse is one from either side. -/
  inverse : ∀ A B : DenseMatrix n n α, LinearSolver.inverse? A = some B →
    A.toMatrix * B.toMatrix = 1 ∧ B.toMatrix * A.toMatrix = 1
  singular_iff : ∀ A : DenseMatrix n n α, LinearSolver.inverse? A = none ↔ A.toMatrix.det = 0

theorem LinearSolver.ExactAt.singular_matrix_iff [Field α] [LinearSolver α]
    (hsolver : LinearSolver.ExactAt α n) {A : DenseMatrix n n α} :
    (TensorValue.matrix A).Singular ↔ A.toMatrix.det = 0 := by
  rw [← hsolver.singular_iff]
  constructor
  · rintro ⟨n, B, h, hB⟩
    cases h
    exact hB
  · intro hA
    exact ⟨n, A, rfl, hA⟩

/-! ## Matrices -/

namespace DenseMatrix

/-- The transposed inverse times the determinant. -/
def cofactors [Mul α] [LinearSolver α] (A B : DenseMatrix n n α) : DenseMatrix n n α :=
  B.transpose.scale (LinearSolver.determinant A)

variable [Field α] [LinearSolver α] {A B : DenseMatrix n n α}

theorem mul_inverse (hsolver : LinearSolver.ExactAt α n) (h : LinearSolver.inverse? A = some B) :
    A.mul B = identity n := by
  rw [← toMatrix_inj, toMatrix_mul, toMatrix_identity]
  exact (hsolver.inverse A B h).1

theorem toMatrix_transpose_cofactors (hsolver : LinearSolver.ExactAt α n)
    (A B : DenseMatrix n n α) :
    (cofactors A B).toMatrix.transpose = A.toMatrix.det • B.toMatrix := by
  rw [cofactors, toMatrix_scale, toMatrix_transpose, Matrix.transpose_smul,
    Matrix.transpose_transpose, hsolver.determinant_eq]

/-- The determinant is left of the transposed cofactors times the matrix. -/
theorem transpose_cofactors_mul (hsolver : LinearSolver.ExactAt α n)
    (h : LinearSolver.inverse? A = some B) :
    (cofactors A B).transpose.mul A = (identity n).scale A.toMatrix.det := by
  rw [← toMatrix_inj, toMatrix_mul, toMatrix_scale, toMatrix_identity, toMatrix_transpose,
    toMatrix_transpose_cofactors hsolver, Matrix.smul_mul, (hsolver.inverse A B h).2]

theorem mul_transpose_cofactors (hsolver : LinearSolver.ExactAt α n)
    (h : LinearSolver.inverse? A = some B) :
    A.mul (cofactors A B).transpose = (identity n).scale A.toMatrix.det := by
  rw [← toMatrix_inj, toMatrix_mul, toMatrix_scale, toMatrix_identity, toMatrix_transpose,
    toMatrix_transpose_cofactors hsolver, Matrix.mul_smul, (hsolver.inverse A B h).1]

/-- The inner product is the trace of the transposed cofactors times the matrix. -/
theorem inner_cofactors (hsolver : LinearSolver.ExactAt α n)
    (h : LinearSolver.inverse? A = some B) :
    inner (cofactors A B) A = (n : α) * A.toMatrix.det := by
  have htrace : inner (cofactors A B) A
      = ((cofactors A B).toMatrix.transpose * A.toMatrix).trace := inner_eq _ _
  rw [htrace, toMatrix_transpose_cofactors hsolver, Matrix.smul_mul, (hsolver.inverse A B h).2,
    Matrix.trace_smul, Matrix.trace_one, Fintype.card_fin, smul_eq_mul, mul_comm]

theorem det_inverse_mul_det (hsolver : LinearSolver.ExactAt α n)
    (h : LinearSolver.inverse? A = some B) : B.toMatrix.det * A.toMatrix.det = 1 := by
  rw [← Matrix.det_mul, (hsolver.inverse A B h).2, Matrix.det_one]

/-- Matrices of which none is singular have inverses. -/
theorem exists_inverses {A : Nat → DenseMatrix n n α} {m : Nat}
    (hsolver : LinearSolver.ExactAt α n) (hA : ∀ k < m, (A k).toMatrix.det ≠ 0) :
    ∃ B : Nat → DenseMatrix n n α, ∀ k < m, LinearSolver.inverse? (A k) = some (B k) := by
  refine ⟨fun k => (LinearSolver.inverse? (A k)).getD (identity n), fun k hk => ?_⟩
  cases h : LinearSolver.inverse? (A k) with
  | none => exact absurd ((hsolver.singular_iff _).1 h) (hA k hk)
  | some B => simp only [h, Option.getD_some]

end DenseMatrix

/-! ## Kernels -/

namespace TensorKernel

variable [LinearSolver α] {A B : DenseMatrix n n α}

theorem inverse_of_some (h : LinearSolver.inverse? A = some B) :
    inverse [.matrix A] = .ok (.matrix B) := by
  rw [inverse_matrix, h]

theorem inverse_of_none (h : LinearSolver.inverse? A = none) :
    inverse [.matrix A] = .error .singular := by
  rw [inverse_matrix, h]

variable [Mul α]

theorem cofactor_of_some (h : LinearSolver.inverse? A = some B) :
    cofactor [.matrix A] = .ok (.matrix (DenseMatrix.cofactors A B)) := by
  rw [cofactor_matrix, h]
  rfl

theorem cofactor_of_none (h : LinearSolver.inverse? A = none) :
    cofactor [.matrix A] = .error .singular := by
  rw [cofactor_matrix, h]

end TensorKernel

/-! ## Functions of matrices -/

variable [Field α] [Elementary α] [LinearSolver α]

namespace HasValues

variable {x y : Except ShapeError (Expr α)} {V : FunctionSpace α}
  {A B : Nat → DenseMatrix n n α} {a b : Nat → α}

theorem determinant (h : HasValues x V (.matrix n n) fun k => .matrix (A k)) :
    HasValues (x >>= Expr.unary .determinant) V .scalar
      fun k => .scalar (LinearSolver.determinant (A k)) :=
  h.invariant rfl (if_pos (Shape.isSquare_matrix n)) fun A => TensorKernel.ofInvariant_matrix _ A

theorem inverse (h : HasValues x V (.matrix n n) fun k => .matrix (A k))
    (hB : ∀ k < V.nodeCount, LinearSolver.inverse? (A k) = some (B k)) :
    HasValues (x >>= Expr.unary .inverse) V (.matrix n n) fun k => .matrix (B k) :=
  h.unary rfl (if_pos (Shape.isSquare_matrix n)) (Nat.le_refl 2) (Nat.le_refl _)
    fun k hk => ⟨TensorKernel.inverse_of_some (hB k hk), rfl⟩

theorem cofactor (h : HasValues x V (.matrix n n) fun k => .matrix (A k))
    (hB : ∀ k < V.nodeCount, LinearSolver.inverse? (A k) = some (B k)) :
    HasValues (x >>= Expr.unary .cofactor) V (.matrix n n)
      fun k => .matrix (DenseMatrix.cofactors (A k) (B k)) :=
  h.unary rfl (if_pos (Shape.isSquare_matrix n)) (Nat.le_refl 2) (Nat.le_refl _)
    fun k hk => ⟨TensorKernel.cofactor_of_some (hB k hk), rfl⟩

theorem dot (hx : HasValues x V (.matrix n n) fun k => .matrix (A k))
    (hy : HasValues y V (.matrix n n) fun k => .matrix (B k)) :
    HasValues (do Expr.binary .dot (← x) (← y)) V (.matrix n n)
      fun k => .matrix ((A k).mul (B k)) :=
  hx.binary hy rfl (if_pos ⟨List.cons_ne_nil _ _, List.cons_ne_nil _ _, rfl⟩) (Nat.le_refl 2)
    (Nat.le_refl _) fun _ _ => ⟨TensorKernel.dot_matrices _ _, rfl⟩

theorem inner (hx : HasValues x V (.matrix n n) fun k => .matrix (A k))
    (hy : HasValues y V (.matrix n n) fun k => .matrix (B k)) :
    HasValues (do Expr.binary .inner (← x) (← y)) V .scalar
      fun k => .scalar (DenseMatrix.inner (A k) (B k)) :=
  hx.binary hy rfl (if_pos rfl) (Nat.zero_le 2) hx.componentCount_pos
    fun _ _ => ⟨TensorKernel.inner_of_matrices _ _, rfl⟩

theorem product (hx : HasValues x V .scalar fun k => .scalar (a k))
    (hy : HasValues y V .scalar fun k => .scalar (b k)) :
    HasValues (do Expr.binary .product (← x) (← y)) V .scalar fun k => .scalar (a k * b k) :=
  hx.pointwise .product hy rfl rfl fun _ _ => rfl

/-- An operation that begins with the inverse has a value exactly if no matrix is singular,
and is refused by its kernel if one is. -/
theorem inverts (op : Operator) {kernel : TensorKernel α}
    {f : DenseMatrix n n α → DenseMatrix n n α → DenseMatrix n n α}
    (hsolver : LinearSolver.ExactAt α n)
    (h : HasValues x V (.matrix n n) fun k => .matrix (A k))
    (hselect : Rules.standard.select op 1 = .ok (.tensor kernel))
    (hshape : op.unaryShape (.matrix n n) = .ok (.matrix n n))
    (hsome : ∀ A B, LinearSolver.inverse? A = some B →
      kernel [.matrix A] = .ok (.matrix (f A B)))
    (hnone : ∀ A : DenseMatrix n n α, LinearSolver.inverse? A = none →
      kernel [.matrix A] = .error .singular) :
    (Evaluates (x >>= Expr.unary op) ↔ ∀ k < V.nodeCount, (A k).toMatrix.det ≠ 0)
      ∧ ((∃ k < V.nodeCount, (A k).toMatrix.det = 0) →
        IsRefused (x >>= Expr.unary op) (.kernel op .singular)) := by
  have hrefused : (∃ k < V.nodeCount, (A k).toMatrix.det = 0) →
      IsRefused (x >>= Expr.unary op) (.kernel op .singular) := by
    rintro ⟨k, hk, hsingular⟩
    refine h.unary_refused hselect hshape (Nat.le_refl 2) (Nat.le_refl _) (fun m _ => ?_) hk
      (hnone _ ((hsolver.singular_iff _).2 hsingular))
    cases hm : LinearSolver.inverse? (A m) with
    | none => exact .inl (hnone _ hm)
    | some B => exact .inr ⟨_, hsome _ _ hm, rfl⟩
  refine ⟨⟨fun hx k hk hsingular => ?_, fun hne => ?_⟩, hrefused⟩
  · exact (hrefused ⟨k, hk, hsingular⟩).not_evaluates hx
  · obtain ⟨B, hB⟩ := DenseMatrix.exists_inverses hsolver hne
    exact (h.unary hselect hshape (Nat.le_refl 2) (Nat.le_refl _)
      fun k hk => ⟨hsome _ _ (hB k hk), rfl⟩).evaluates

end HasValues

/-- The inverse and the cofactors of a function of square matrices, as they are evaluated
with a solver that is exact for matrices of this size. The inverse has a value exactly if
the cofactors have one, which is the case exactly if the determinant is zero at no node; if
it is zero at some node, then both fail by their kernels. Where they have values, a matrix
times its inverse is the identity at every node, the transposed cofactors times the matrix,
on either side, are the identity times the determinant, the inner product of the cofactors
and the matrix is the number of rows times the determinant, and the determinants of the
inverse and of the matrix multiply to one. -/
theorem evaluate_inverse_laws {u : NodalFunction α} {sub : ScalarElement}
    (hu : u.space.whole = .tensor sub n n) (hsolver : LinearSolver.ExactAt α n) :
    let U : Expr α := .function u
    let det := Expr.unary .determinant U
    let inv := Expr.unary .inverse U
    let cofac := Expr.unary .cofactor U
    ∃ d : Nat → α, HasValues det u.space .scalar (fun k => .scalar (d k))
      ∧ (∀ k < u.space.nodeCount, ∃ A : DenseMatrix n n α,
        u.nodeValue? k = some (.matrix A) ∧ d k = A.toMatrix.det)
      ∧ (Evaluates inv ↔ ∀ k < u.space.nodeCount, d k ≠ 0)
      ∧ (Evaluates cofac ↔ ∀ k < u.space.nodeCount, d k ≠ 0)
      ∧ ((∃ k < u.space.nodeCount, d k = 0) →
        IsRefused inv (.kernel .inverse .singular)
        ∧ IsRefused cofac (.kernel .cofactor .singular))
      ∧ ((∀ k < u.space.nodeCount, d k ≠ 0) →
        HasValues (do Expr.binary .dot U (← inv)) u.space (.matrix n n)
          (fun _ => .matrix (.identity n))
        ∧ HasValues (do Expr.binary .dot (← cofac >>= Expr.unary .transposed) U) u.space
          (.matrix n n) (fun k => .matrix ((DenseMatrix.identity n).scale (d k)))
        ∧ HasValues (do Expr.binary .dot U (← cofac >>= Expr.unary .transposed)) u.space
          (.matrix n n) (fun k => .matrix ((DenseMatrix.identity n).scale (d k)))
        ∧ HasValues (do Expr.binary .inner (← cofac) U) u.space .scalar
          (fun k => .scalar ((n : α) * d k))
        ∧ HasValues (do Expr.binary .product (← inv >>= Expr.unary .determinant) (← det)) u.space
          .scalar (fun _ => .scalar 1)) := by
  intro U det inv cofac
  obtain ⟨A, h⟩ := HasValues.exists_matrix hu
  obtain ⟨hinv, hinvRefused⟩ := h.inverts .inverse (f := fun _ B => B) hsolver rfl
    (if_pos (Shape.isSquare_matrix n)) (fun _ _ => TensorKernel.inverse_of_some)
    fun _ => TensorKernel.inverse_of_none
  obtain ⟨hcofac, hcofacRefused⟩ := h.inverts .cofactor (f := DenseMatrix.cofactors) hsolver rfl
    (if_pos (Shape.isSquare_matrix n)) (fun _ _ => TensorKernel.cofactor_of_some)
    fun _ => TensorKernel.cofactor_of_none
  refine ⟨fun k => (A k).toMatrix.det, ?_, fun k hk => ⟨A k, h.nodeValue? hk, rfl⟩, hinv, hcofac,
    fun hzero => ⟨hinvRefused hzero, hcofacRefused hzero⟩, fun hne => ?_⟩
  · exact h.determinant.congr fun k _ => by rw [hsolver.determinant_eq]
  · obtain ⟨B, hB⟩ := DenseMatrix.exists_inverses hsolver hne
    have htransposed := (h.cofactor hB).transposed
    refine ⟨?_, ?_, ?_, ?_, ?_⟩
    · exact (h.dot (h.inverse hB)).congr fun k hk => by
        rw [DenseMatrix.mul_inverse hsolver (hB k hk)]
    · exact (htransposed.dot h).congr fun k hk => by
        rw [DenseMatrix.transpose_cofactors_mul hsolver (hB k hk)]
    · exact (h.dot htransposed).congr fun k hk => by
        rw [DenseMatrix.mul_transpose_cofactors hsolver (hB k hk)]
    · exact ((h.cofactor hB).inner h).congr fun k hk => by
        rw [DenseMatrix.inner_cofactors hsolver (hB k hk)]
    · refine ((h.inverse hB).determinant.product h.determinant).congr fun k hk => ?_
      rw [hsolver.determinant_eq, hsolver.determinant_eq,
        DenseMatrix.det_inverse_mul_det hsolver (hB k hk)]

/-! ## Two rows -/

theorem DenseMatrix.determinant₂_eq {α : Type} [CommRing α] (A : DenseMatrix 2 2 α) :
    A.determinant₂ = A.toMatrix.det := by
  rw [Matrix.det_fin_two, determinant₂, mul_comm (A.get 1 0)]
  rfl

/-- The formulas for matrices with two rows are exact if only zero can not be divided by. -/
theorem LinearSolver.exactAt_two {α : Type} [Field α] [Pivoting α]
    (hzero : ∀ x : α, Pivoting.isZero x = true ↔ x = 0) : LinearSolver.ExactAt α 2 := by
  have hsingular : ∀ A : DenseMatrix 2 2 α,
      Pivoting.isZero A.determinant₂ = true ↔ A.toMatrix.det = 0 := by
    intro A
    rw [hzero, DenseMatrix.determinant₂_eq]
  refine ⟨DenseMatrix.determinant₂_eq, fun A B h => ?_, fun A => ?_⟩
  · change A.inverse₂? = some B at h
    rw [DenseMatrix.inverse₂?] at h
    split at h
    · cases h
    · rename_i hne
      have hunit : IsUnit A.toMatrix.det := isUnit_iff_ne_zero.2 fun h => hne ((hsingular A).2 h)
      have hB : B.toMatrix = A.toMatrix⁻¹ := by
        cases h
        rw [Matrix.inv_def, Ring.inverse_eq_inv', Matrix.adjugate_fin_two,
          DenseMatrix.determinant₂_eq]
        funext i j
        fin_cases i <;> fin_cases j <;> simp [DenseMatrix.get, div_eq_inv_mul]
      rw [hB, Matrix.mul_nonsing_inv _ hunit, Matrix.nonsing_inv_mul _ hunit]
      exact ⟨rfl, rfl⟩
  · change A.inverse₂? = none ↔ _
    rw [DenseMatrix.inverse₂?, ← hsingular]
    split
    · simp only [*]
    · simp only [*, reduceCtorEq]

theorem DenseMatrix.det_entries {α : Type} [CommRing α] (a b c d : α) :
    (⟨#v[a, b, c, d]⟩ : DenseMatrix 2 2 α).toMatrix.det = a * d - b * c := by
  rw [Matrix.det_fin_two]
  rfl

/-- Real matrices that are not symmetric, on a segment: the transposed cofactors times the
first one are minus two times the identity. With a singular matrix at the second node there
are neither an inverse nor cofactors. -/
theorem evaluate_inverse_laws_segment :
    let u : NodalFunction ℝ := segmentFunction 0 1 #[1, 2, 3, 4, 2, 1, 0, 3] rfl
    let v : NodalFunction ℝ := segmentFunction 0 1 #[1, 2, 3, 4, 1, 2, 2, 4] rfl
    let U : Expr ℝ := .function u
    let V : Expr ℝ := .function v
    (∃ e f, (do Expr.binary .dot (← Expr.unary .cofactor U >>= Expr.unary .transposed) U) = .ok e
      ∧ evaluate Rules.standard e = .ok (.function f)
      ∧ f.nodeValue? 0 = some (.matrix ((DenseMatrix.identity 2).scale (-2))))
    ∧ IsRefused (Expr.unary .inverse V) (.kernel .inverse .singular)
    ∧ IsRefused (Expr.unary .cofactor V) (.kernel .cofactor .singular) := by
  intro u v U V
  have hsolver : LinearSolver.ExactAt ℝ 2 := LinearSolver.exactAt_two fun _ => isZero_real
  -- the matrix at a node is the one that is read there
  have hdet : ∀ {A : DenseMatrix 2 2 ℝ} {w : NodalFunction ℝ} {k : Nat} {d : ℝ},
      w.nodeValue? k = some (.matrix A) →
      (∃ B : DenseMatrix 2 2 ℝ, w.nodeValue? k = some (.matrix B) ∧ d = B.toMatrix.det) →
      d = A.toMatrix.det := by
    rintro A w k d hA ⟨B, hB, rfl⟩
    rw [hA] at hB
    cases hB
    rfl
  constructor
  · obtain ⟨d, -, hd, -, -, -, hlaws⟩ := evaluate_inverse_laws (u := u) rfl hsolver
    have hd₀ := hdet (A := ⟨#v[1, 2, 3, 4]⟩) rfl (hd 0 (show 0 < 2 by decide))
    have hd₁ := hdet (A := ⟨#v[2, 1, 0, 3]⟩) rfl (hd 1 (show 1 < 2 by decide))
    rw [DenseMatrix.det_entries] at hd₀ hd₁
    have hne : ∀ k < 2, d k ≠ 0 := by
      intro k hk
      obtain rfl | rfl : k = 0 ∨ k = 1 := by omega
      · rw [hd₀]
        norm_num
      · rw [hd₁]
        norm_num
    obtain ⟨-, ⟨e, f, he, -, hf, -, -, hvalues⟩, -⟩ := hlaws hne
    have hminus : d 0 = -2 := by
      rw [hd₀]
      norm_num
    exact ⟨e, f, he, hf, hminus ▸ hvalues 0 (show 0 < 2 by decide)⟩
  · obtain ⟨d, -, hd, -, -, hrefused, -⟩ := evaluate_inverse_laws (u := v) rfl hsolver
    have hd₁ := hdet (A := ⟨#v[1, 2, 2, 4]⟩) rfl (hd 1 (show 1 < 2 by decide))
    rw [DenseMatrix.det_entries] at hd₁
    refine hrefused ⟨1, show 1 < 2 by decide, ?_⟩
    rw [hd₁]
    norm_num

end NodalAlgebra
