import Mathlib.Data.Nat.Init
import NodalAlgebra.Proofs.KernelShapes
import NodalAlgebra.Proofs.TwoRuns

/-!
# Outcomes of standard kernels

Whether a standard tensor kernel has a value, which shape the value has, and what the
kernel fails with otherwise is decided by the number and the shapes of the operands
(`standardTensor_decidedByShapes`). The one exception is a singular matrix that is to be
inverted.
-/

namespace NodalAlgebra

/-! ## Two values of one shape -/

namespace TensorValue

variable {α : Type}

/-- Two values of one shape: two numbers, two vectors or two matrices. -/
inductive Similar : TensorValue α → TensorValue α → Prop
  | scalar (x y : α) : Similar (.scalar x) (.scalar y)
  | vector {n : Nat} (u v : Vector α n) : Similar (.vector u) (.vector v)
  | matrix {r c : Nat} (a b : DenseMatrix r c α) : Similar (.matrix a) (.matrix b)

theorem similar_of_shape_eq {a b : TensorValue α} (h : a.shape = b.shape) : a.Similar b := by
  cases a <;> cases b <;> cases h
  · exact .scalar _ _
  · exact .vector _ _
  · exact .matrix _ _

theorem Similar.shape_eq {a b : TensorValue α} (h : a.Similar b) : a.shape = b.shape := by
  cases h <;> rfl

end TensorValue

namespace TensorKernel

variable {α : Type}

/-- For operands of the same shapes a kernel has values of one shape or fails in the same
way, unless it stops with an exempted error. -/
def DecidedByShapes (stop : KernelError → Prop) (kernel : TensorKernel α) : Prop :=
  ∀ args args', List.Forall₂ (fun a b : TensorValue α => a.shape = b.shape) args args' →
    Parallel stop (fun a b => a.shape = b.shape) (kernel args) (kernel args')

variable {stop : KernelError → Prop}

theorem scalars_parallel (x y : α) :
    Parallel stop (fun a b : TensorValue α => a.shape = b.shape) (.ok (.scalar x))
      (.ok (.scalar y)) :=
  .answers rfl

theorem vectors_parallel {n : Nat} (u v : Vector α n) :
    Parallel stop (fun a b : TensorValue α => a.shape = b.shape) (.ok (.vector u))
      (.ok (.vector v)) :=
  .answers rfl

theorem matrices_parallel {r c : Nat} (a b : DenseMatrix r c α) :
    Parallel stop (fun a b : TensorValue α => a.shape = b.shape) (.ok (.matrix a))
      (.ok (.matrix b)) :=
  .answers rfl

/-! ## One operand -/

theorem matrixOperand_of_length_ne {args : List (TensorValue α)} (h : args.length ≠ 1) :
    matrixOperand args = .error (.operandCount 1 args.length) := by
  unfold matrixOperand
  split
  · exact absurd rfl h
  · exact absurd rfl h
  · rfl

theorem matrixOperand_parallel (stop : KernelError → Prop) {args args' : List (TensorValue α)}
    (h : List.Forall₂ (fun a b => a.shape = b.shape) args args') :
    Parallel stop (fun p q => p.1 = q.1 ∧ p.2.1 = q.2.1) (matrixOperand args)
      (matrixOperand args') := by
  by_cases hlength : args.length = 1
  · obtain ⟨a, rfl⟩ := List.length_eq_one_iff.1 hlength
    obtain ⟨b, rfl, hab⟩ := forall₂_singleton h
    cases TensorValue.similar_of_shape_eq hab with
    | scalar => exact .failures (KernelError.notMatrix .scalar)
    | vector => exact .failures (KernelError.notMatrix (.vector _))
    | matrix => exact .answers ⟨rfl, rfl⟩
  · rw [matrixOperand_of_length_ne hlength, matrixOperand_of_length_ne (h.length_eq ▸ hlength),
      h.length_eq]
    exact .failures _

theorem squareOperand_parallel (stop : KernelError → Prop) {args args' : List (TensorValue α)}
    (h : List.Forall₂ (fun a b => a.shape = b.shape) args args') :
    Parallel stop (fun p q => p.1 = q.1) (squareOperand args) (squareOperand args') := by
  refine (matrixOperand_parallel stop h).bind ?_
  rintro ⟨r, c, a⟩ ⟨_, _, b⟩ ⟨rfl, rfl⟩
  exact .dite (fun _ => .answers rfl) fun _ => .failures (KernelError.notSquare r c)

theorem ofSquare_decided (f : {n : Nat} → DenseMatrix n n α → DenseMatrix n n α) :
    DecidedByShapes stop (ofSquare f) := by
  intro args args' h
  refine (squareOperand_parallel stop h).bind ?_
  rintro ⟨n, a⟩ ⟨_, b⟩ rfl
  exact matrices_parallel (f a) (f b)

theorem ofInvariant_decided (f : {n : Nat} → DenseMatrix n n α → α) :
    DecidedByShapes stop (ofInvariant f) := by
  intro args args' h
  exact (squareOperand_parallel stop h).bind fun p q _ => scalars_parallel (f p.2) (f q.2)

theorem transpose_decided : DecidedByShapes stop (transpose (α := α)) := by
  intro args args' h
  refine (matrixOperand_parallel stop h).bind ?_
  rintro ⟨r, c, a⟩ ⟨_, _, b⟩ ⟨rfl, rfl⟩
  exact matrices_parallel a.transpose b.transpose

/-- A kernel that makes a matrix of the inverse of its operand stops at a singular one. -/
theorem ofInverse_decided [LinearSolver α]
    (f : {n : Nat} → DenseMatrix n n α → DenseMatrix n n α → DenseMatrix n n α)
    (hstop : stop .singular) :
    DecidedByShapes stop (fun args => do
      let ⟨_, a⟩ ← squareOperand args
      match LinearSolver.inverse? a with
      | some b => return .matrix (f a b)
      | none => throw .singular) := by
  intro args args' h
  refine (squareOperand_parallel stop h).bind ?_
  rintro ⟨n, a⟩ ⟨_, b⟩ rfl
  dsimp only
  -- here alone the entries decide: one of the two matrices can be singular
  cases LinearSolver.inverse? a with
  | none => exact .leftStops hstop
  | some c =>
      cases LinearSolver.inverse? b with
      | none => exact .rightStops hstop
      | some d => exact matrices_parallel (f a c) (f b d)

/-! ## Two operands -/

/-- Turning down no operand, one and more than two is turning down all but two. -/
theorem of_length_ne_two {kernel : TensorKernel α}
    (hnone : kernel [] = .error (.operandCount 2 0))
    (hone : ∀ a, kernel [a] = .error (.operandCount 2 1))
    (hmore : ∀ a b c rest,
      kernel (a :: b :: c :: rest) = .error (.operandCount 2 (a :: b :: c :: rest).length))
    {args : List (TensorValue α)} (h : args.length ≠ 2) :
    kernel args = .error (.operandCount 2 args.length) := by
  rcases args with _ | ⟨a, _ | ⟨b, _ | ⟨c, rest⟩⟩⟩
  · exact hnone
  · exact hone a
  · exact absurd rfl h
  · exact hmore a b c rest

/-- A kernel on two operands is decided by shapes if it is so for every two of them. -/
theorem decided_of_pair {kernel : TensorKernel α}
    (hcount : ∀ args, args.length ≠ 2 → kernel args = .error (.operandCount 2 args.length))
    (hpair : ∀ a b a' b' : TensorValue α, a.Similar a' → b.Similar b' →
      Parallel stop (fun c d => c.shape = d.shape) (kernel [a, b]) (kernel [a', b'])) :
    DecidedByShapes stop kernel := by
  intro args args' h
  by_cases hlength : args.length = 2
  · obtain ⟨a, b, rfl⟩ := List.length_eq_two.1 hlength
    obtain ⟨a', b', rfl, ha, hb⟩ := forall₂_pair h
    exact hpair a b a' b' (TensorValue.similar_of_shape_eq ha) (TensorValue.similar_of_shape_eq hb)
  · rw [hcount args hlength, hcount args' (h.length_eq ▸ hlength), h.length_eq]
    exact .failures _

theorem dot_decided [Zero α] [Add α] [Mul α] : DecidedByShapes stop (dot (α := α)) := by
  refine decided_of_pair ?_ fun a b a' b' ha hb => ?_
  · exact fun _ => of_length_ne_two rfl (fun _ => rfl) fun _ _ _ _ => rfl
  · cases ha with
    | scalar =>
        cases hb with
        | scalar => exact scalars_parallel _ _
        | vector | matrix => exact .failures _
    | vector =>
        cases hb with
        | scalar => exact .failures _
        | vector => exact .dite (fun _ => scalars_parallel _ _) fun _ => .failures _
        | matrix => exact .dite (fun _ => vectors_parallel _ _) fun _ => .failures _
    | matrix =>
        cases hb with
        | scalar => exact .failures _
        | vector => exact .dite (fun _ => vectors_parallel _ _) fun _ => .failures _
        | matrix => exact .dite (fun _ => matrices_parallel _ _) fun _ => .failures _

theorem inner_decided [Zero α] [Add α] [Mul α] : DecidedByShapes stop (inner (α := α)) := by
  refine decided_of_pair ?_ fun a b a' b' ha hb => ?_
  · exact fun _ => of_length_ne_two rfl (fun _ => rfl) fun _ _ _ _ => rfl
  · cases ha with
    | scalar =>
        cases hb with
        | scalar => exact scalars_parallel _ _
        | vector | matrix => exact .failures _
    | vector =>
        cases hb with
        | vector => exact .dite (fun _ => scalars_parallel _ _) fun _ => .failures _
        | scalar | matrix => exact .failures _
    | matrix =>
        cases hb with
        | matrix => exact .dite (fun _ => scalars_parallel _ _) fun _ => .failures _
        | scalar | vector => exact .failures _

theorem outer_decided [Mul α] : DecidedByShapes stop (outer (α := α)) := by
  refine decided_of_pair ?_ fun a b a' b' ha hb => ?_
  · exact fun _ => of_length_ne_two rfl (fun _ => rfl) fun _ _ _ _ => rfl
  · cases ha with
    | scalar =>
        cases hb with
        | scalar => exact scalars_parallel _ _
        | vector => exact vectors_parallel _ _
        | matrix => exact matrices_parallel _ _
    | vector =>
        cases hb with
        | scalar => exact vectors_parallel _ _
        | vector => exact matrices_parallel _ _
        | matrix => exact .failures _
    | matrix =>
        cases hb with
        | scalar => exact matrices_parallel _ _
        | vector | matrix => exact .failures _

theorem cross_of_ne [Sub α] [Mul α] {a b : TensorValue α}
    (h : ¬ (a.shape = .vector 3 ∧ b.shape = .vector 3)) :
    cross [a, b] = .error (.crossShapes a.shape b.shape) := by
  simp only [cross]
  split
  · exact absurd ⟨rfl, rfl⟩ h
  · rfl

theorem cross_decided [Sub α] [Mul α] : DecidedByShapes stop (cross (α := α)) := by
  refine decided_of_pair ?_ fun a b a' b' ha hb => ?_
  · exact fun _ => of_length_ne_two rfl (fun _ => rfl) fun _ _ _ _ => rfl
  · by_cases h : a.shape = .vector 3 ∧ b.shape = .vector 3
    · obtain ⟨h₁, h₂⟩ := h
      cases ha with
      | scalar | matrix => cases h₁
      | vector =>
          cases h₁
          cases hb with
          | scalar | matrix => cases h₂
          | vector =>
              cases h₂
              exact vectors_parallel _ _
    · have ha' := ha.shape_eq
      have hb' := hb.shape_eq
      rw [cross_of_ne h, cross_of_ne (ha' ▸ hb' ▸ h), ha', hb']
      exact .failures _

end TensorKernel

/-! ## Standard kernels -/

/-- Whether a standard kernel has a value, and of which shape, is decided by the shapes of
its operands, unless a matrix to be inverted is singular. -/
theorem standardTensor_decidedByShapes {α : Type} [Zero α] [One α] [Add α] [Sub α] [Mul α]
    [Div α] [NatCast α] [LinearSolver α] {op : Operator} {kernel : TensorKernel α}
    (hkernel : KernelTables.standardTensor op = some kernel) :
    kernel.DecidedByShapes fun cause => op.inverts = true ∧ cause = .singular := by
  cases op <;> cases hkernel
  case transposed => exact TensorKernel.transpose_decided
  case trace | determinant => exact TensorKernel.ofInvariant_decided _
  case sym | skew | deviatoric => exact TensorKernel.ofSquare_decided _
  case inverse => exact TensorKernel.ofInverse_decided (fun _ b => b) ⟨rfl, rfl⟩
  case cofactor =>
    exact TensorKernel.ofInverse_decided
      (fun a b => b.transpose.scale (LinearSolver.determinant a)) ⟨rfl, rfl⟩
  case dot => exact TensorKernel.dot_decided
  case cross => exact TensorKernel.cross_decided
  case outer => exact TensorKernel.outer_decided
  case inner => exact TensorKernel.inner_decided

end NodalAlgebra
