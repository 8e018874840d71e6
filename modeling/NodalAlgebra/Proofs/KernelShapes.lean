import NodalAlgebra.Evaluate.Basic
import NodalAlgebra.Expr.Kind
import NodalAlgebra.Expr.Typing
import NodalAlgebra.Proofs.DeclaredShapes
import NodalAlgebra.Rules.Standard

/-!
# Shapes and standard kernels

The standard tensor kernels have values for operands of all shapes that the rules of
tensor algebra accept, and the values have the shapes that these rules give
(`standardTensor_unary`, `standardTensor_binary`). There are two exceptions: a
singular matrix has no inverse and no cofactor matrix (`standardTensor_singular`),
and no kernel has values of rank three or more.
-/

namespace NodalAlgebra

/-! ## Shapes without zero dimensions -/

theorem Operator.unaryShape_positive {op : Operator} {s t : Shape}
    (h : op.unaryShape s = .ok t) (hs : s.Positive) : t.Positive := by
  have hscalar : Shape.scalar.Positive := by simp [Shape.Positive, Shape.scalar]
  cases op <;> simp only [unaryShape, reduceCtorEq] at h
  case transposed =>
    split at h
    · rename_i r c hdims
      cases h
      intro d hd
      refine hs d ?_
      simp only [Shape.matrix, List.mem_cons] at hd
      simp only [hdims, List.mem_cons]
      exact hd.elim (fun h => .inr (.inl h)) (fun h => h.elim .inl (fun h => .inr (.inr h)))
    · cases h
  case trace | determinant =>
    split at h
    · cases h; exact hscalar
    · cases h
  case inverse | sym | skew | deviatoric | cofactor =>
    split at h
    · cases h; exact hs
    · cases h
  all_goals
    cases h
    exact hs

theorem Operator.binaryShape_positive {op : Operator} {s t u : Shape}
    (h : op.binaryShape s t = .ok u) (hs : s.Positive) (ht : t.Positive) : u.Positive := by
  cases op <;> simp only [binaryShape, reduceCtorEq] at h
  case sum | atan2 | division | power =>
    split at h
    · cases h; exact hs
    · cases h
  case product =>
    split at h
    · cases h; exact ht
    · split at h
      · cases h; exact hs
      · cases h
  case dot =>
    split at h
    · cases h
      intro d hd
      rcases List.mem_append.1 hd with hd | hd
      · exact hs d (List.dropLast_subset _ hd)
      · exact ht d (List.mem_of_mem_tail hd)
    · cases h
  case inner =>
    split at h
    · cases h; simp [Shape.Positive, Shape.scalar]
    · cases h
  case outer =>
    cases h
    intro d hd
    exact (List.mem_append.1 hd).elim (hs d) (ht d)
  case cross =>
    split at h
    · cases h; simp [Shape.Positive, Shape.vector]
    · cases h

/-! ## Singular values -/

/-- An operator whose kernel needs the inverse of its operand. -/
def Operator.inverts : Operator → Bool
  | .inverse | .cofactor => true
  | _ => false

/-- A square matrix that is found to be singular. -/
def TensorValue.Singular {α : Type} [LinearSolver α] (a : TensorValue α) : Prop :=
  ∃ (n : Nat) (A : DenseMatrix n n α), a = .matrix A ∧ LinearSolver.inverse? A = none

theorem TensorValue.exists_square {α : Type} {a : TensorValue α} (h : a.shape.isSquare = true) :
    ∃ (n : Nat) (A : DenseMatrix n n α), a = .matrix A := by
  obtain ⟨n, h⟩ := Shape.isSquare_iff.1 h
  cases a with
  | scalar x => cases h
  | vector v => cases h
  | matrix A =>
      cases h
      exact ⟨n, A, rfl⟩

namespace TensorKernel

variable {α : Type} {n : Nat}

theorem squareOperand_matrix (A : DenseMatrix n n α) : squareOperand [.matrix A] = .ok ⟨n, A⟩ := by
  simp [squareOperand, matrixOperand, DenseMatrix.castCols]

theorem ofSquare_matrix (f : {n : Nat} → DenseMatrix n n α → DenseMatrix n n α)
    (A : DenseMatrix n n α) : ofSquare f [.matrix A] = .ok (.matrix (f A)) := by
  simp [ofSquare, squareOperand_matrix]

theorem ofInvariant_matrix (f : {n : Nat} → DenseMatrix n n α → α) (A : DenseMatrix n n α) :
    ofInvariant f [.matrix A] = .ok (.scalar (f A)) := by
  simp [ofInvariant, squareOperand_matrix]

variable [LinearSolver α]

theorem inverse_matrix (A : DenseMatrix n n α) :
    inverse [.matrix A] = match LinearSolver.inverse? A with
      | some B => .ok (.matrix B)
      | none => .error .singular := by
  simp only [inverse, squareOperand_matrix, ok_bind]
  cases LinearSolver.inverse? A <;> rfl

theorem cofactor_matrix [Mul α] (A : DenseMatrix n n α) :
    cofactor [.matrix A] = match LinearSolver.inverse? A with
      | some B => .ok (.matrix (B.transpose.scale (LinearSolver.determinant A)))
      | none => .error .singular := by
  simp only [cofactor, squareOperand_matrix, ok_bind]
  cases LinearSolver.inverse? A <;> rfl

end TensorKernel

/-! ## Standard kernels -/

/-- How the shapes of two operands decide the shape of a pointwise operation's
result: it is the shape of both, or one of them is scalar and the other counts. -/
def Shape.Pointwise (s t u : Shape) : Prop :=
  (s = t ∧ u = s) ∨ (t = .scalar ∧ u = s) ∨ (s = .scalar ∧ u = t)

section

variable {α : Type} [Zero α] [One α] [Add α] [Sub α] [Mul α] [Div α] [NatCast α] [LinearSolver α]
  {op : Operator} {kernel : TensorKernel α}

/-- For one operand of an accepted shape, a standard kernel has a value of the
expected shape, unless it needs the inverse of a singular matrix. -/
theorem standardTensor_unary (hkernel : KernelTables.standardTensor op = some kernel)
    {a : TensorValue α} {s : Shape} (hshape : op.unaryShape a.shape = .ok s)
    (hregular : op.inverts = true → ¬ a.Singular) : ∃ b, kernel [a] = .ok b ∧ b.shape = s := by
  cases op <;> simp only [KernelTables.standardTensor, Option.some.injEq, reduceCtorEq] at hkernel
    <;> subst hkernel <;> simp only [Operator.unaryShape, reduceCtorEq] at hshape
  case transposed =>
    cases a with
    | scalar x => cases hshape
    | vector v => cases hshape
    | matrix A =>
        cases hshape
        exact ⟨.matrix A.transpose, rfl, rfl⟩
  -- all others accept square matrices only
  all_goals
    split at hshape
    case isFalse => cases hshape
    rename_i hsquare
    cases hshape
    obtain ⟨n, A, rfl⟩ := TensorValue.exists_square hsquare
  case trace | determinant => exact ⟨_, TensorKernel.ofInvariant_matrix _ A, rfl⟩
  case sym | skew | deviatoric => exact ⟨_, TensorKernel.ofSquare_matrix _ A, rfl⟩
  case inverse =>
    cases hinverse : LinearSolver.inverse? A with
    | none => exact absurd ⟨n, A, rfl, hinverse⟩ (hregular rfl)
    | some B => exact ⟨.matrix B, by rw [TensorKernel.inverse_matrix, hinverse], rfl⟩
  case cofactor =>
    cases hinverse : LinearSolver.inverse? A with
    | none => exact absurd ⟨n, A, rfl, hinverse⟩ (hregular rfl)
    | some B =>
        exact ⟨.matrix (B.transpose.scale (LinearSolver.determinant A)),
          by rw [TensorKernel.cofactor_matrix, hinverse], rfl⟩

theorem standardTensor_singular (hkernel : KernelTables.standardTensor op = some kernel)
    (hinverts : op.inverts = true) {a : TensorValue α} (ha : a.Singular) :
    kernel [a] = .error .singular := by
  obtain ⟨n, A, rfl, hsingular⟩ := ha
  cases op <;> simp only [Operator.inverts, Bool.false_eq_true] at hinverts
  case inverse =>
    cases hkernel
    rw [TensorKernel.inverse_matrix, hsingular]
  case cofactor =>
    cases hkernel
    rw [TensorKernel.cofactor_matrix, hsingular]

/-- For two operands of accepted shapes, a standard kernel has a value of the
expected shape, if its rank is at most two. -/
theorem standardTensor_binary (hkernel : KernelTables.standardTensor op = some kernel)
    {a b : TensorValue α} {s : Shape} (hshape : op.binaryShape a.shape b.shape = .ok s)
    (hrank : s.rank ≤ 2) : ∃ c, kernel [a, b] = .ok c ∧ c.shape = s := by
  cases op <;> simp only [KernelTables.standardTensor, Option.some.injEq, reduceCtorEq] at hkernel
    <;> subst hkernel <;> simp only [Operator.binaryShape, reduceCtorEq] at hshape
  case dot =>
    split at hshape
    case isFalse => cases hshape
    rename_i hdims
    cases hshape
    obtain ⟨ha, hb, hcontract⟩ := hdims
    cases a <;> cases b <;> simp only [TensorValue.shape, Shape.scalar, Shape.vector, Shape.matrix,
      ne_eq, not_true_eq_false, List.getLast?_cons_cons, List.getLast?_singleton, List.head?_cons,
      Option.some.injEq] at ha hb hcontract
    all_goals
      subst hcontract
      exact ⟨_, dif_pos rfl, rfl⟩
  case inner =>
    split at hshape
    case isFalse => cases hshape
    rename_i hsame
    cases hshape
    cases a <;> cases b <;> cases hsame
    · exact ⟨_, rfl, rfl⟩
    · exact ⟨_, dif_pos rfl, rfl⟩
    · exact ⟨_, dif_pos ⟨rfl, rfl⟩, rfl⟩
  case outer =>
    cases hshape
    -- the pairs without a kernel have ranks that add up to three or four
    cases a <;> cases b <;> first
      | exact ⟨_, rfl, rfl⟩
      | simp [Shape.rank, TensorValue.shape, Shape.vector, Shape.matrix] at hrank
  case cross =>
    split at hshape
    case isFalse => cases hshape
    rename_i hvectors
    cases hshape
    obtain ⟨ha, hb⟩ := hvectors
    cases a <;> cases ha
    cases b <;> cases hb
    exact ⟨_, rfl, rfl⟩

variable [Elementary α]

/-- An operator that accepts a shape has a standard kernel for one operand. -/
theorem select_of_unaryShape {s t : Shape} (h : op.unaryShape s = .ok t) :
    (∃ φ, (Rules.standard : Rules α).select op 1 = .ok (.pointwise (.unary φ))
        ∧ op.isTensorial = false ∧ t = s)
      ∨ ∃ kernel, (Rules.standard : Rules α).select op 1 = .ok (.tensor kernel)
        ∧ op.isTensorial = true ∧ KernelTables.standardTensor op = some kernel := by
  cases op <;> simp only [Operator.unaryShape, reduceCtorEq] at h
  case transposed | trace | determinant | inverse | sym | skew | deviatoric | cofactor =>
    exact .inr ⟨_, rfl, rfl, rfl⟩
  all_goals
    cases h
    exact .inl ⟨_, rfl, rfl, rfl⟩

/-- An operator that accepts two shapes has a standard kernel for two operands. -/
theorem select_of_binaryShape {s t u : Shape} (h : op.binaryShape s t = .ok u) :
    (∃ φ, (Rules.standard : Rules α).select op 2 = .ok (.pointwise (.binary φ))
        ∧ op.isTensorial = false ∧ s.Pointwise t u)
      ∨ ∃ kernel, (Rules.standard : Rules α).select op 2 = .ok (.tensor kernel)
        ∧ op.isTensorial = true ∧ KernelTables.standardTensor op = some kernel := by
  cases op <;> simp only [Operator.binaryShape, reduceCtorEq] at h
  case dot | inner | outer | cross => exact .inr ⟨_, rfl, rfl, rfl⟩
  case sum | atan2 =>
    split at h
    · rename_i hsame
      cases h
      exact .inl ⟨_, rfl, rfl, .inl ⟨hsame, rfl⟩⟩
    · cases h
  case division | power =>
    split at h
    · rename_i hscalar
      cases h
      exact .inl ⟨_, rfl, rfl, .inr (.inl ⟨Shape.isScalar_iff.1 hscalar, rfl⟩)⟩
    · cases h
  case product =>
    split at h
    · rename_i hscalar
      cases h
      exact .inl ⟨_, rfl, rfl, .inr (.inr ⟨Shape.isScalar_iff.1 hscalar, rfl⟩)⟩
    · split at h
      · rename_i hscalar
        cases h
        exact .inl ⟨_, rfl, rfl, .inr (.inl ⟨Shape.isScalar_iff.1 hscalar, rfl⟩)⟩
      · cases h

/-- The selection of a component has no standard kernel. -/
theorem select_indexed (n : Nat) :
    (Rules.standard : Rules α).select .indexed n = .error (.unsupportedOperator .indexed) := rfl

end

end NodalAlgebra
