import NodalAlgebra.Proofs.Tree

/-!
# Where a failure comes from

An operation raises a failure itself if its kernel is not found, or if its operands
have values but the kernel cannot be applied to them (`Raises`). Whatever an
expression fails with is raised by an operation somewhere in it
(`exists_raises_of_evaluate`).
-/

namespace NodalAlgebra

variable {α : Type}

/-! ## The kernel of an operation -/

theorem Operator.arity?_eq_none {op : Operator} : op.arity? = none ↔ op = .indexed := by
  cases op <;> simp [arity?]

namespace Rules

variable {R : Rules α} {op : Operator} {n : Nat}

/-- No kernel is found for a wrong number of operands, whatever the tables hold, nor for
an operator that is in neither table. -/
theorem select_eq_error {err : EvalError} :
    R.select op n = .error err ↔
      (∃ k, op.arity? = some k ∧ k ≠ n ∧ err = .arity op k n)
        ∨ ((∀ k, op.arity? = some k → k = n) ∧ R.supports op = false
          ∧ err = .unsupportedOperator op) := by
  unfold select select.lookUp supports
  cases op.arity? with
  | none => cases R.tensor op <;> cases R.pointwise op <;> simp [eq_comm]
  | some k =>
      by_cases hk : k = n
      · cases R.tensor op <;> cases R.pointwise op <;> simp [hk, eq_comm]
      · simp only [if_neg hk]
        constructor
        · intro h
          cases h
          exact .inl ⟨k, rfl, hk, rfl⟩
        · rintro (⟨_, hk', -, rfl⟩ | ⟨h, -⟩)
          · cases hk'
            rfl
          · exact absurd (h k rfl) hk

/-- The kernel of an operation is the entry of the tensor table, else that of the
pointwise table. -/
theorem select_eq_ok {kernel : Kernel α} :
    R.select op n = .ok kernel ↔
      (∀ k, op.arity? = some k → k = n)
        ∧ ((∃ k, R.tensor op = some k ∧ kernel = .tensor k)
          ∨ (R.tensor op = none ∧ ∃ k, R.pointwise op = some k ∧ kernel = .pointwise k)) := by
  unfold select select.lookUp
  cases op.arity? with
  | none => cases R.tensor op <;> cases R.pointwise op <;> simp [eq_comm]
  | some k =>
      by_cases hk : k = n
      · cases R.tensor op <;> cases R.pointwise op <;> simp [hk, eq_comm]
      · simp [hk]

theorem tensor_of_select {kernel : TensorKernel α} (h : R.select op n = .ok (.tensor kernel)) :
    R.tensor op = some kernel := by
  obtain ⟨-, ⟨k, hk, hkernel⟩ | ⟨-, k, -, hkernel⟩⟩ := select_eq_ok.1 h
  · cases hkernel
    exact hk
  · cases hkernel

theorem pointwise_of_select {kernel : PointwiseKernel α}
    (h : R.select op n = .ok (.pointwise kernel)) :
    R.tensor op = none ∧ R.pointwise op = some kernel := by
  obtain ⟨-, ⟨k, -, hkernel⟩ | ⟨htensor, k, hk, hkernel⟩⟩ := select_eq_ok.1 h
  · cases hkernel
  · cases hkernel
    exact ⟨htensor, hk⟩

/-- The pointwise kernel of an operation takes as many operands as there are, except
where the number is open. -/
theorem arity_of_select {kernel : PointwiseKernel α} (h : R.select op n = .ok (.pointwise kernel))
    (hop : op ≠ .indexed) : kernel.arity = n := by
  obtain ⟨htensor, hk⟩ := pointwise_of_select h
  cases harity : op.arity? with
  | none => exact absurd (Operator.arity?_eq_none.1 harity) hop
  | some m =>
      -- consistent tables hold kernels of the operator's own arity only
      have hdefect := R.consistent op
      simp only [KernelTables.defect?, hk, htensor, harity, Option.isSome_none,
        Bool.false_eq_true, if_false] at hdefect
      split at hdefect
      · rename_i hm
        exact hm ▸ (select_eq_ok.1 h).1 m harity
      · cases hdefect

end Rules

/-! ## Expressions in an expression -/

/-- One expression stands somewhere in another one. -/
inductive Expr.Within : Expr α → Expr α → Prop
  | refl (e : Expr α) : Within e e
  | operand {e e' : Expr α} {op : Operator} {es : List (Expr α)} {s : Shape} :
      e' ∈ es → Within e e' → Within e (.operation op es s)

/-- The functions of an expression are among those of the whole. -/
theorem Expr.Within.mem_functions {e t : Expr α} (h : e.Within t) {f : NodalFunction α}
    (hf : f ∈ e.functions) : f ∈ t.functions := by
  induction h with
  | refl => exact hf
  | operand hmem _ ih => exact mem_functions_operation.2 ⟨_, hmem, ih⟩

/-! ## Failures -/

section

variable [Zero α] {R : Rules α}

/-- An operation fails on its own account: no kernel is found for it, or its operands
have values but the kernel does not apply to them. -/
inductive Raises (R : Rules α) (op : Operator) (es : List (Expr α)) (s : Shape) :
    Failure EvalError → Prop
  | selection {err : EvalError} :
      R.select op es.length = .error err → Raises R op es s (.refused err)
  | application {kernel : Kernel α} {vs : List (Value α)} {x : Failure EvalError} :
      R.select op es.length = .ok kernel →
      List.Forall₂ (fun e v => evaluate R e = .ok v) es vs →
      kernel.apply op s vs = .error x → Raises R op es s x

/-- Every failure of an expression is raised by an operation in it. -/
theorem exists_raises_of_evaluate {e : Expr α} {x : Failure EvalError}
    (h : evaluate R e = .error x) :
    ∃ op es s, (Expr.operation op es s).Within e ∧ Raises R op es s x := by
  induction e using Expr.induct with
  | function f => cases h
  | constant y => cases h
  | operation op es s ih =>
      rcases evaluate_operation_eq_error.1 h with hselect | ⟨kernel, hselect, h | ⟨vs, hvs, h⟩⟩
      · cases hkernel : R.select op es.length with
        | ok kernel => rw [hkernel] at hselect; cases hselect
        | error err =>
            rw [hkernel] at hselect
            cases hselect
            exact ⟨op, es, s, .refl _, .selection hkernel⟩
      · -- the failing operand has the operation in it
        rw [evaluateAll_eq_mapM] at h
        obtain ⟨before, e, after, hes, -, he⟩ := mapM_eq_error.1 h
        have hmem : e ∈ es := by rw [hes]; simp
        obtain ⟨op', es', s', hwithin, hraises⟩ := ih e hmem he
        exact ⟨op', es', s', .operand hmem hwithin, hraises⟩
      · exact ⟨op, es, s, .refl _, .application hselect hvs h⟩

end

end NodalAlgebra
