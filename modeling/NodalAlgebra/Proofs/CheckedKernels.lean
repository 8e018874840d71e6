import NodalAlgebra.Kernel.Checked
import NodalAlgebra.Proofs.KernelRejections
import NodalAlgebra.Proofs.Overflow

/-!
# Kernels without unmet checks

No check of an operation fails that a standard tensor kernel calls: what the kernel has
compared beforehand is what the operation relies on. So a kernel with checks refuses what
the kernel without them refuses, and has the same value where there is a table for it
(`CheckedKernel.standard_eq`).
-/

namespace NodalAlgebra

variable {α : Type}

open Failure (ofFault ofRefusal)

theorem Failure.ofFault_bind {ε β γ : Type} (x : Except Fault β) (f : β → Except Fault γ) :
    (ofFault (x >>= f) : Except (Failure ε) γ) = ofFault x >>= fun b => ofFault (f b) := by
  cases x <;> rfl

/-- The kernel, with a table asked for its value. -/
def TensorKernel.inTable [ByteSize α] (kernel : TensorKernel α) : CheckedKernel α := fun args => do
  let a ← ofRefusal (kernel args)
  let _ ← ofFault (a.shape.table? α)
  return a

namespace CheckedKernel

/-! ## One operand -/

/-- A matrix that has been found square is one with as many rows as columns. -/
theorem squareOperand_eq (args : List (TensorValue α)) :
    squareOperand args = (do
      let ⟨n, a⟩ ← ofRefusal (TensorKernel.squareOperand args)
      return ⟨n, n, a⟩) := by
  rw [squareOperand, TensorKernel.squareOperand]
  cases TensorKernel.matrixOperand args with
  | error e => rfl
  | ok operand =>
      obtain ⟨r, c, a⟩ := operand
      by_cases h : c = r
      · subst h
        simp [DenseMatrix.castCols]
      · have h' : ¬ r = c := fun h' => h h'.symm
        simp [h, h']

section

variable [ByteSize α]

@[simp] theorem table?_scalar : Shape.scalar.table? α = .ok 1 :=
  Size.table?_eq_ok.2 ⟨(Nat.one_mul (ByteSize.bytes α)).symm ▸ ByteSize.bytes_lt, rfl⟩

/-- Kernels on a square matrix are compared for every one. -/
theorem eq_inTable_of_square
    {f : (r : Nat) × (c : Nat) × DenseMatrix r c α → Except (Failure KernelError) (TensorValue α)}
    {g : (n : Nat) × DenseMatrix n n α → Except KernelError (TensorValue α)}
    (h : ∀ n (a : DenseMatrix n n α), f ⟨n, n, a⟩ = (do
      let b ← ofRefusal (g ⟨n, a⟩)
      let _ ← ofFault (b.shape.table? α)
      return b)) :
    (fun args => squareOperand args >>= f)
      = TensorKernel.inTable fun args => TensorKernel.squareOperand args >>= g := by
  funext args
  rw [TensorKernel.inTable, squareOperand_eq]
  cases TensorKernel.squareOperand args with
  | error e => rfl
  | ok operand => exact h operand.1 operand.2

theorem ofInvariant_eq (f : {n : Nat} → DenseMatrix n n α → α) :
    ofInvariant f = (TensorKernel.ofInvariant f).inTable := by
  refine eq_inTable_of_square fun n a => ?_
  simp [Checked.invariant, TensorValue.shape]

theorem transpose_eq : transpose = (TensorKernel.transpose (α := α)).inTable := by
  funext args
  rw [transpose, TensorKernel.inTable, TensorKernel.transpose]
  cases TensorKernel.matrixOperand args with
  | error e => rfl
  | ok operand => simp [Checked.transpose, Failure.ofFault_bind, TensorValue.shape]

theorem halfCombined_eq [One α] [Add α] [Mul α] [Div α]
    (f : {m n : Nat} → DenseMatrix m n α → DenseMatrix m n α → DenseMatrix m n α) :
    halfCombined f
      = (TensorKernel.ofSquare fun a => (f a a.transpose).scale (1 / (1 + 1))).inTable := by
  refine eq_inTable_of_square fun n a => ?_
  -- the two tables that are asked for have one length
  cases htable : (Shape.matrix n n).table? α with
  | error cause => simp [Checked.transpose, htable, TensorValue.shape]
  | ok count => simp [Checked.transpose, Checked.combine, htable, TensorValue.shape]

theorem deviatoric_eq [Zero α] [One α] [Add α] [Sub α] [Mul α] [Div α] [NatCast α] :
    deviatoric = (TensorKernel.deviatoric (α := α)).inTable := by
  refine eq_inTable_of_square fun n a => ?_
  cases htable : (Shape.matrix n n).table? α with
  | error cause => simp [Checked.invariant, Checked.scaleMatrix, htable, TensorValue.shape]
  | ok count =>
      simp [Checked.invariant, Checked.scaleMatrix, Checked.combine, htable, TensorValue.shape]

variable [LinearSolver α]

theorem inverse_eq : inverse = (TensorKernel.inverse (α := α)).inTable := by
  refine eq_inTable_of_square fun n a => ?_
  cases hinverse : LinearSolver.inverse? a with
  | none => simp [Checked.inverse, hinverse]
  | some b => simp [Checked.inverse, Failure.ofFault_bind, hinverse, TensorValue.shape]

theorem cofactor_eq [Mul α] : cofactor = (TensorKernel.cofactor (α := α)).inTable := by
  refine eq_inTable_of_square fun n a => ?_
  cases hinverse : LinearSolver.inverse? a with
  | none => simp [Checked.inverse, hinverse]
  | some b =>
      cases htable : (Shape.matrix n n).table? α with
      | error cause => simp [Checked.inverse, hinverse, htable, TensorValue.shape]
      | ok count =>
          simp [Checked.inverse, Checked.transpose, Checked.invariant, hinverse, htable,
            TensorValue.shape]

end

/-! ## Two operands -/

section

variable [ByteSize α]

/-- Kernels that turn down every other number of operands are compared for every two of them. -/
theorem eq_inTable_of_pair {kernel : CheckedKernel α} {plain : TensorKernel α}
    (hnone : kernel [] = plain.inTable []) (hone : ∀ a, kernel [a] = plain.inTable [a])
    (hmore : ∀ a b c rest, kernel (a :: b :: c :: rest) = plain.inTable (a :: b :: c :: rest))
    (hpair : ∀ a b, kernel [a, b] = plain.inTable [a, b]) : kernel = plain.inTable := by
  funext args
  rcases args with _ | ⟨a, _ | ⟨b, _ | ⟨c, rest⟩⟩⟩
  · exact hnone
  · exact hone a
  · exact hpair a b
  · exact hmore a b c rest

theorem inner_eq [Zero α] [Add α] [Mul α] :
    inner = (TensorKernel.inner (α := α)).inTable := by
  refine eq_inTable_of_pair rfl (fun _ => rfl) (fun _ _ _ _ => rfl) ?_
  intro a b
  rw [TensorKernel.inTable]
  by_cases hshape : a.shape = b.shape
  · cases TensorValue.similar_of_shape_eq hshape with
    | scalar x y => simp [inner, TensorKernel.inner, TensorValue.shape]
    | vector u v => simp [inner, TensorKernel.inner, Checked.dot, TensorValue.shape]
    | matrix c d =>
        simp [inner, TensorKernel.inner, Checked.inner, DenseMatrix.castCols, TensorValue.shape]
  · rw [TensorKernel.inner_of_ne hshape]
    exact if_pos hshape

theorem dot_eq [Zero α] [Add α] [Mul α] : dot = (TensorKernel.dot (α := α)).inTable := by
  refine eq_inTable_of_pair rfl (fun _ => rfl) (fun _ _ _ _ => rfl) ?_
  intro a b
  rw [TensorKernel.inTable]
  cases a with
  | scalar x =>
      cases b with
      | scalar y => simp [dot, TensorKernel.dot, TensorValue.shape]
      | vector | matrix => rfl
  | @vector m u =>
      cases b with
      | scalar y => rfl
      | @vector n v =>
          by_cases h : n = m
          · subst h
            simp [dot, TensorKernel.dot, Checked.dot, TensorValue.shape]
          · have h' : ¬ m = n := fun h' => h h'.symm
            simp [dot, TensorKernel.dot, h, h']
      | @matrix n c d =>
          by_cases h : m = n
          · subst h
            simp [dot, TensorKernel.dot, Checked.vecMul, Failure.ofFault_bind, TensorValue.shape]
          · simp [dot, TensorKernel.dot, h]
  | @matrix r m c =>
      cases b with
      | scalar y => rfl
      | @vector n v =>
          by_cases h : n = m
          · subst h
            simp [dot, TensorKernel.dot, Checked.mulVec, Failure.ofFault_bind, TensorValue.shape]
          · have h' : ¬ m = n := fun h' => h h'.symm
            simp [dot, TensorKernel.dot, h, h']
      | @matrix n q d =>
          by_cases h : m = n
          · subst h
            simp [dot, TensorKernel.dot, Checked.mul, DenseMatrix.castCols, Failure.ofFault_bind,
              TensorValue.shape]
          · simp [dot, TensorKernel.dot, h]

theorem outer_eq [Mul α] : outer = (TensorKernel.outer (α := α)).inTable := by
  refine eq_inTable_of_pair rfl (fun _ => rfl) (fun _ _ _ _ => rfl) ?_
  intro a b
  rw [TensorKernel.inTable]
  cases a <;> cases b <;>
    simp [outer, TensorKernel.outer, Checked.scaleVector, Checked.scaleMatrix, Checked.outer,
      Failure.ofFault_bind, TensorValue.shape]

/-- The components that the cross product takes are there in vectors of three. -/
theorem cross_three [Sub α] [Mul α] (u v : Vector α 3) :
    Checked.cross u v = (do
      let _ ← (Shape.vector 3).table? α
      return DenseMatrix.cross u v) := by
  simp [Checked.cross, Checked.component, DenseMatrix.cross]

theorem cross_eq [Sub α] [Mul α] : cross = (TensorKernel.cross (α := α)).inTable := by
  refine eq_inTable_of_pair rfl (fun _ => rfl) (fun _ _ _ _ => rfl) ?_
  intro a b
  rw [TensorKernel.inTable]
  by_cases h : a.shape = .vector 3 ∧ b.shape = .vector 3
  · obtain ⟨ha, hb⟩ := h
    cases a with
    | scalar | matrix => cases ha
    | vector u =>
        cases ha
        cases b with
        | scalar | matrix => cases hb
        | vector v =>
            cases hb
            simp [cross, TensorKernel.cross, cross_three, Failure.ofFault_bind,
              TensorValue.shape]
  · rw [TensorKernel.cross_of_ne h]
    cases a with
    | scalar | matrix => rfl
    | @vector m u =>
        cases b with
        | scalar | matrix => rfl
        | @vector n v =>
            have hne : ¬ (m = 3 ∧ n = 3) := by
              rintro ⟨rfl, rfl⟩
              exact h ⟨rfl, rfl⟩
            simp [cross, hne]

/-! ## The kernel of an operator -/

/-- The kernels with checks are those without them, with a table asked for the value. -/
theorem standard_eq [Zero α] [One α] [Add α] [Sub α] [Mul α] [Div α] [NatCast α]
    [LinearSolver α] (op : Operator) :
    (standard op : Option (CheckedKernel α))
      = (KernelTables.standardTensor op).map TensorKernel.inTable := by
  cases op <;> first | rfl | refine congrArg some ?_
  case inverse => exact inverse_eq
  case transposed => exact transpose_eq
  case sym | skew => exact halfCombined_eq _
  case deviatoric => exact deviatoric_eq
  case cofactor => exact cofactor_eq
  case determinant | trace => exact ofInvariant_eq _
  case dot => exact dot_eq
  case cross => exact cross_eq
  case outer => exact outer_eq
  case inner => exact inner_eq

end

end CheckedKernel

end NodalAlgebra
