import NodalAlgebra.Proofs.KernelOutcomes

/-!
# What standard kernels reject

A standard tensor kernel rejects every list of operands for which the rules of tensor
algebra give no shape, or a shape of rank three or more (`standardTensor_rejects`). Two
numbers, which have no axis to contract, are the one exception: their dot product is their
product.
-/

namespace NodalAlgebra

/-- The shape of an operator's result for any number of operands. -/
def Operator.resultShape (op : Operator) : List Shape → Except ShapeError Shape
  | [s] => op.unaryShape s
  | [s, t] => op.binaryShape s t
  | shapes => .error (.operandCount op shapes.length)

variable {α : Type}

namespace TensorKernel

/-- The kernel refuses the operands, for another reason than that one is singular. -/
def Rejects (kernel : TensorKernel α) (args : List (TensorValue α)) : Prop :=
  ∃ cause, kernel args = .error cause ∧ cause ≠ .singular

/-! ## One operand -/

theorem squareOperand_of_length_ne {args : List (TensorValue α)} (h : args.length ≠ 1) :
    squareOperand args = .error (.operandCount 1 args.length) := by
  rw [squareOperand, matrixOperand_of_length_ne h]
  rfl

/-- What is no square matrix is no operand. -/
theorem squareOperand_eq_error {a : TensorValue α} (h : ¬ a.shape.isSquare = true) :
    ∃ cause, squareOperand [a] = .error cause ∧ cause ≠ .singular := by
  cases a with
  | scalar x => exact ⟨.notMatrix .scalar, rfl, by simp⟩
  | vector v => exact ⟨.notMatrix (.vector _), rfl, by simp⟩
  | @matrix r c a =>
      have hne : ¬ c = r := by
        rintro rfl
        exact h (Shape.isSquare_iff.2 ⟨c, rfl⟩)
      refine ⟨.notSquare r c, ?_, by simp⟩
      rw [squareOperand, matrixOperand, ok_bind]
      exact dif_neg hne

/-- A kernel for square matrices rejects what is none. -/
theorem rejects_of_not_square {a : TensorValue α} (h : ¬ a.shape.isSquare = true)
    (f : (n : Nat) × DenseMatrix n n α → Except KernelError (TensorValue α)) :
    Rejects (fun args => squareOperand args >>= f) [a] := by
  obtain ⟨cause, hcause, hne⟩ := squareOperand_eq_error h
  refine ⟨cause, ?_, hne⟩
  show squareOperand [a] >>= f = .error cause
  rw [hcause]
  rfl

/-! ## Two operands -/

section

variable {a b : TensorValue α}

theorem inner_of_ne [Zero α] [Add α] [Mul α] (h : a.shape ≠ b.shape) :
    inner [a, b] = .error (.innerShapes a.shape b.shape) := by
  cases a with
  | scalar x =>
      cases b with
      | scalar y => exact absurd rfl h
      | vector | matrix => rfl
  | vector u =>
      cases b with
      | vector v => exact dif_neg fun hn => h (by rw [TensorValue.shape, TensorValue.shape, hn])
      | scalar | matrix => rfl
  | matrix c =>
      cases b with
      | matrix d =>
          exact dif_neg fun hn => h (by rw [TensorValue.shape, TensorValue.shape, hn.1, hn.2])
      | scalar | vector => rfl

/-- Without two axes of one length there is nothing to contract. -/
theorem dot_of_not_contractible [Zero α] [Add α] [Mul α]
    (h : ¬ (a.shape.dims ≠ [] ∧ b.shape.dims ≠ [] ∧ a.shape.dims.getLast? = b.shape.dims.head?))
    (hscalar : ¬ (a.shape = .scalar ∧ b.shape = .scalar)) :
    dot [a, b] = .error (.dotShapes a.shape b.shape) := by
  cases a with
  | scalar x =>
      cases b with
      | scalar y => exact absurd ⟨rfl, rfl⟩ hscalar
      | vector | matrix => rfl
  | vector u =>
      cases b with
      | scalar y => rfl
      | vector v =>
          exact dif_neg fun hn =>
            h ⟨List.cons_ne_nil _ _, List.cons_ne_nil _ _, congrArg some hn.symm⟩
      | matrix d =>
          exact dif_neg fun hn =>
            h ⟨List.cons_ne_nil _ _, List.cons_ne_nil _ _, congrArg some hn⟩
  | matrix c =>
      cases b with
      | scalar y => rfl
      | vector v =>
          exact dif_neg fun hn =>
            h ⟨List.cons_ne_nil _ _, List.cons_ne_nil _ _, congrArg some hn.symm⟩
      | matrix d =>
          exact dif_neg fun hn =>
            h ⟨List.cons_ne_nil _ _, List.cons_ne_nil _ _, congrArg some hn⟩

theorem outer_of_rank [Mul α] (h : 2 < a.shape.rank + b.shape.rank) :
    outer [a, b] = .error (.outerRank a.shape b.shape) := by
  have ha := a.rank_shape_le
  have hb := b.rank_shape_le
  cases a with
  | scalar x =>
      change 2 < 0 + b.shape.rank at h
      omega
  | vector u =>
      cases b with
      | scalar y => exact absurd h (show ¬ 2 < 1 + 0 by omega)
      | vector v => exact absurd h (show ¬ 2 < 1 + 1 by omega)
      | matrix d => rfl
  | matrix c =>
      cases b with
      | scalar y => exact absurd h (show ¬ 2 < 2 + 0 by omega)
      | vector | matrix => rfl

end

end TensorKernel

/-! ## Standard kernels -/

section

variable [Zero α] [One α] [Add α] [Sub α] [Mul α] [Div α] [NatCast α] [LinearSolver α]
  {op : Operator} {kernel : TensorKernel α}

/-- A standard kernel rejects another number of operands than its operator takes. -/
theorem standardTensor_of_length_ne (hkernel : KernelTables.standardTensor op = some kernel)
    {n : Nat} (hn : op.arity? = some n) {args : List (TensorValue α)} (hlength : args.length ≠ n) :
    kernel args = .error (.operandCount n args.length) := by
  cases op <;> cases hkernel <;> cases hn
  case transposed =>
    rw [TensorKernel.transpose, TensorKernel.matrixOperand_of_length_ne hlength]
    rfl
  case trace | determinant =>
    simp only [TensorKernel.trace, TensorKernel.determinant, TensorKernel.ofInvariant,
      TensorKernel.squareOperand_of_length_ne hlength, error_bind]
  case sym | skew | deviatoric =>
    simp only [TensorKernel.sym, TensorKernel.skew, TensorKernel.deviatoric,
      TensorKernel.ofSquare, TensorKernel.squareOperand_of_length_ne hlength, error_bind]
  case inverse | cofactor =>
    simp only [TensorKernel.inverse, TensorKernel.cofactor,
      TensorKernel.squareOperand_of_length_ne hlength, error_bind]
  case dot | cross | outer | inner =>
    exact TensorKernel.of_length_ne_two rfl (fun _ => rfl) (fun _ _ _ _ => rfl) hlength

/-- An operator of linear algebra takes one operand or two. -/
theorem Operator.arity?_of_isTensorial {op : Operator} (h : op.isTensorial = true) :
    op.arity? = some 1 ∨ op.arity? = some 2 := by
  cases op <;> simp [isTensorial, arity?] at h ⊢

/-- For one operand there is no value without an accepted shape. -/
theorem standardTensor_rejects_unary (hkernel : KernelTables.standardTensor op = some kernel)
    (harity : op.arity? = some 1) {a : TensorValue α}
    (h : ∀ s, op.unaryShape a.shape = .ok s → 2 < s.rank) : kernel.Rejects [a] := by
  have hrank := a.rank_shape_le
  cases op <;> cases hkernel <;> cases harity
  case transposed =>
    cases a with
    | scalar x => exact ⟨.notMatrix .scalar, rfl, by simp⟩
    | vector v => exact ⟨.notMatrix (.vector _), rfl, by simp⟩
    | matrix c => exact absurd (h _ rfl) (show ¬ 2 < 2 by omega)
  case trace | determinant =>
    have hsquare : ¬ a.shape.isSquare = true := fun hsquare =>
      absurd (h .scalar (if_pos hsquare)) (show ¬ 2 < 0 by omega)
    exact TensorKernel.rejects_of_not_square hsquare _
  case inverse | sym | skew | deviatoric | cofactor =>
    have hsquare : ¬ a.shape.isSquare = true := fun hsquare =>
      absurd (h a.shape (if_pos hsquare)) (Nat.not_lt_of_le hrank)
    exact TensorKernel.rejects_of_not_square hsquare _

/-- For two operands there is no value without an accepted shape of rank at most two, the dot
product of two numbers apart. -/
theorem standardTensor_rejects_binary (hkernel : KernelTables.standardTensor op = some kernel)
    (harity : op.arity? = some 2) {a b : TensorValue α}
    (h : ∀ s, op.binaryShape a.shape b.shape = .ok s → 2 < s.rank)
    (hdot : ¬ (op = .dot ∧ a.shape = .scalar ∧ b.shape = .scalar)) : kernel.Rejects [a, b] := by
  have ha := a.rank_shape_le
  have hb := b.rank_shape_le
  cases op <;> cases hkernel <;> cases harity
  case dot =>
    refine ⟨_, TensorKernel.dot_of_not_contractible ?_ (by simpa using hdot), by simp⟩
    intro hcontract
    have hlt := h _ (if_pos hcontract)
    simp only [Shape.rank, List.length_append, List.length_dropLast, List.length_tail] at hlt ha hb
    omega
  case inner =>
    refine ⟨_, TensorKernel.inner_of_ne fun hsame => ?_, by simp⟩
    exact absurd (h .scalar (if_pos hsame)) (show ¬ 2 < 0 by omega)
  case outer =>
    have hlt := h _ rfl
    refine ⟨_, TensorKernel.outer_of_rank ?_, by simp⟩
    simpa [Shape.rank] using hlt
  case cross =>
    refine ⟨_, TensorKernel.cross_of_ne fun hvectors => ?_, by simp⟩
    exact absurd (h (.vector 3) (if_pos hvectors)) (show ¬ 2 < 1 by omega)

/-- Operands for which the rules of tensor algebra give no shape of rank at most two are
rejected, the dot product of two numbers apart. -/
theorem standardTensor_rejects (hkernel : KernelTables.standardTensor op = some kernel)
    {args : List (TensorValue α)}
    (h : ∀ s, op.resultShape (args.map TensorValue.shape) = .ok s → 2 < s.rank)
    (hdot : ¬ (op = .dot ∧ args.map TensorValue.shape = [.scalar, .scalar])) :
    kernel.Rejects args := by
  have harity : op.arity? = some 1 ∨ op.arity? = some 2 := by
    refine op.arity?_of_isTensorial ?_
    cases op <;> first | rfl | cases hkernel
  rcases harity with harity | harity
  · by_cases hlength : args.length = 1
    · obtain ⟨a, rfl⟩ := List.length_eq_one_iff.1 hlength
      exact standardTensor_rejects_unary hkernel harity h
    · exact ⟨_, standardTensor_of_length_ne hkernel harity hlength, by simp⟩
  · by_cases hlength : args.length = 2
    · obtain ⟨a, b, rfl⟩ := List.length_eq_two.1 hlength
      exact standardTensor_rejects_binary hkernel harity h (by simpa using hdot)
    · exact ⟨_, standardTensor_of_length_ne hkernel harity hlength, by simp⟩

end

end NodalAlgebra
