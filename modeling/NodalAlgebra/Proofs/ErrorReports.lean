import NodalAlgebra.Proofs.Faults
import NodalAlgebra.Proofs.Fields

/-!
# What errors tell

Each error of an evaluation tells the truth about the operation that raises it
(`EvalError.TellsOf`). This says as much of errors that are never met: over
constructed meshes no evaluation ends with operands of different numbers of nodes or
coefficients, with a space that lacks its sub-spaces, with a shape that does not match
a space, or with a function that its space does not accept (`evaluate_reports`).
-/

namespace NodalAlgebra

variable {α : Type}

/-! ## Reports -/

/-- An inconsistency is one of two spaces: their elements, scalar elements or meshes
differ. Nothing else is ever inconsistent. -/
def Inconsistency.TellsOf (first found : FunctionSpace α) : Inconsistency → Prop
  | .spaces e m e₀ m₀ =>
      e = found.element ∧ m = found.mesh.id ∧ e₀ = first.element ∧ m₀ = first.mesh.id
        ∧ (e ≠ e₀ ∨ m ≠ m₀)
  | .subElements e e₀ =>
      e = found.element.scalarElement ∧ e₀ = first.element.scalarElement ∧ e ≠ e₀
  | .meshes m m₀ => m = found.mesh.id ∧ m₀ = first.mesh.id ∧ m ≠ m₀
  | _ => False

/-- A function is the value of one of some operands. -/
def IsOperand [Zero α] (R : Rules α) (es : List (Expr α)) (f : NodalFunction α) : Prop :=
  ∃ e ∈ es, evaluate R e = .ok (.function f)

/-- What an error says is true of an operation with operands `es` and declared shape `s`. -/
def EvalError.TellsOf [Zero α] (R : Rules α) (op : Operator) (es : List (Expr α)) (s : Shape) :
    EvalError → Prop
  | .inconsistentSpace how =>
      ∃ f g, IsOperand R es f ∧ IsOperand R es g ∧ how.TellsOf f.space g.space
  | .unsupportedOperator op' => op' = op ∧ R.supports op = false
  | .unsupportedRank s' => s' = s ∧ 2 < s.rank ∧ (R.tensor op).isSome = true
  | .noFunctionOperand => es = [] ∨ ∃ x, .constant x ∈ es
  | .arity op' expected actual =>
      op' = op ∧ actual = es.length ∧ expected ≠ actual
        ∧ match op.arity? with
          -- the number is checked before a kernel is looked up and operands are evaluated
          | some n => expected = n
              ∧ ∀ (R' : Rules α) (es' : List (Expr α)) (s' : Shape), es'.length = actual →
                  evaluate R' (.operation op es' s') = .error (.refused (.arity op expected actual))
          | none => ∃ kernel, R.pointwise op = some kernel ∧ expected = kernel.arity
  | .kernelShape expected actual =>
      expected = s ∧ actual ≠ s ∧ (R.tensor op).isSome = true
  | .kernel op' _ => op' = op ∧ (R.tensor op).isSome = true
  | .space cause =>
      0 ∈ s.dims ∧ (R.tensor op).isSome = true
        ∧ ∃ element, element.valueShape = s ∧ cause = .noComponents element

/-! ## Reports of an operation -/

section

variable [Zero α] {R : Rules α} {op : Operator} {es : List (Expr α)} {s : Shape}
  {vs : List (Value α)}

theorem isOperand_of_mem (hvs : List.Forall₂ (fun e v => evaluate R e = .ok v) es vs)
    {f : NodalFunction α} (hf : .function f ∈ vs) : IsOperand R es f :=
  exists_of_mem_forall₂ hvs hf

theorem constant_mem_of_mem (hvs : List.Forall₂ (fun e v => evaluate R e = .ok v) es vs) {x : α}
    (hx : .number x ∈ vs) : .constant x ∈ es := by
  obtain ⟨e, he, hex⟩ := exists_of_mem_forall₂ hvs hx
  exact evaluate_eq_number.1 hex ▸ he

/-- The number of operands is the first thing to be checked, then the operator. -/
theorem tells_of_selection {err : EvalError} (h : R.select op es.length = .error err) :
    err.TellsOf R op es s := by
  rcases Rules.select_eq_error.1 h with ⟨k, harity, hk, rfl⟩ | ⟨-, hsupports, rfl⟩
  · refine ⟨rfl, rfl, hk, ?_⟩
    rw [harity]
    refine ⟨rfl, fun R' es' s' hlength => evaluate_operation_eq_error.2 (.inl ?_)⟩
    have hselect : R'.select op es'.length = .error (.arity op k es.length) :=
      Rules.select_eq_error.2 (.inl ⟨k, harity, hlength ▸ hk, by rw [hlength]⟩)
    rw [hselect]
    rfl
  · exact ⟨rfl, hsupports⟩

/-- Operands that do not share a space hold no function, or two in different spaces. -/
theorem tells_of_sharedSpace (hvs : List.Forall₂ (fun e v => evaluate R e = .ok v) es vs)
    {err : EvalError} (h : sharedSpace vs = .error err) : err.TellsOf R op es s := by
  rcases sharedSpace_eq_error h with ⟨rfl, hnone⟩ | ⟨f, rest, g, hfs, hg, hne, rfl⟩
  · cases hvs with
    | nil => exact .inl rfl
    | @cons e v es vs hv hvs =>
        cases v with
        | function f => cases hnone
        | number x => exact .inr ⟨x, by simp [evaluate_eq_number.1 hv]⟩
  · have hf : .function f ∈ vs := mem_filterMap_function?.1 (by simp [hfs])
    have hg : .function g ∈ vs := mem_filterMap_function?.1 (by simp [hfs, hg])
    exact ⟨f, g, isOperand_of_mem hvs hf, isOperand_of_mem hvs hg, rfl, rfl, rfl, rfl,
      FunctionSpace.isCompatible_eq_false.1 hne⟩

/-- Functions that do not share a discretization are none at all, or two of them have
different scalar elements or meshes. -/
theorem tells_of_sharedDiscretization {fs : List (NodalFunction α)}
    (hvs : List.Forall₂ (fun e v => evaluate R e = .ok v) es (fs.map .function)) {err : EvalError}
    (h : sharedDiscretization (fs.map (·.space)) = .error err) : err.TellsOf R op es s := by
  have hoperand : ∀ V ∈ fs.map (·.space), ∃ f, f.space = V ∧ IsOperand R es f := by
    intro V hV
    obtain ⟨f, hf, rfl⟩ := List.mem_map.1 hV
    exact ⟨f, rfl, isOperand_of_mem hvs (List.mem_map.2 ⟨f, hf, rfl⟩)⟩
  rcases sharedDiscretization_eq_error h with ⟨rfl, hnil⟩ | ⟨V, hV, W, hW, h⟩
  · obtain rfl := List.map_eq_nil_iff.1 hnil
    cases hvs
    exact .inl rfl
  · obtain ⟨f, rfl, hf⟩ := hoperand V hV
    obtain ⟨g, rfl, hg⟩ := hoperand W hW
    rcases h with ⟨hne, rfl⟩ | ⟨hne, rfl⟩
    · exact ⟨f, g, hf, hg, by simp, by simp, hne⟩
    · exact ⟨f, g, hf, hg, rfl, rfl, hne⟩

variable {supply : MeshSupply} {meshes : List (Mesh α)}

/-- The values of operands over constructed meshes live on these. -/
theorem mesh_mem_of_mem (hmeshes : ∀ f ∈ Expr.functionsAll es, f.space.mesh ∈ meshes)
    (hvs : List.Forall₂ (fun e v => evaluate R e = .ok v) es vs) {f : NodalFunction α}
    (hf : .function f ∈ vs) : f.space.mesh ∈ meshes := by
  obtain ⟨e, he, hef⟩ := exists_of_mem_forall₂ hvs hf
  obtain ⟨f', hf', hmesh⟩ := exists_mesh_of_evaluate hef
  exact hmesh ▸ hmeshes f' (Expr.mem_functionsAll.2 ⟨e, he, hf'⟩)

theorem tells_of_pointwise (hissued : supply.Issued meshes)
    (hmeshes : ∀ f ∈ Expr.functionsAll es, f.space.mesh ∈ meshes) {kernel : PointwiseKernel α}
    (hselect : R.select op es.length = .ok (.pointwise kernel))
    (hvs : List.Forall₂ (fun e v => evaluate R e = .ok v) es vs) {err : EvalError}
    (h : applyPointwise op kernel vs = .error err) : err.TellsOf R op es s := by
  rcases applyPointwise_eq_error h with hV | ⟨V, cause, hV, hcause, rfl⟩
  · exact tells_of_sharedSpace hvs hV
  · rcases PointwiseKernel.apply_eq_error hcause with
      ⟨rfl, hlength⟩ | ⟨rfl, x, hx⟩ | ⟨cs, ds, hargs, hsize, -⟩
    · rw [List.length_map, ← hvs.length_eq] at hlength
      -- a kernel takes as many operands as its operator, where that number is fixed
      obtain rfl : op = .indexed := by
        by_contra hop
        exact hlength (Rules.arity_of_select hselect hop).symm
      rw [EvalError.ofApply, List.length_map, ← hvs.length_eq]
      exact ⟨rfl, rfl, hlength.symm, kernel, (Rules.pointwise_of_select hselect).2, rfl⟩
    · obtain ⟨v, hv, hvx⟩ := List.mem_map.1 hx
      rw [Value.operand_eq_number] at hvx
      exact .inr ⟨x, constant_mem_of_mem hvs (hvx ▸ hv)⟩
    · -- functions in compatible spaces have equally many coefficients
      obtain ⟨v, w, rfl, hv, hw⟩ := map_eq_pair hargs
      obtain ⟨f, rfl, rfl⟩ := Value.operand_eq_array.1 hv
      obtain ⟨g, rfl, rfl⟩ := Value.operand_eq_array.1 hw
      obtain ⟨_, _, hfs, -, hcompatible⟩ := sharedSpace_eq_ok.1 hV
      cases hfs
      exact absurd (hissued.size_eq (mesh_mem_of_mem hmeshes hvs (by simp))
        (mesh_mem_of_mem hmeshes hvs (by simp)) (hcompatible g (by simp))) hsize

theorem tells_of_tensor (hissued : supply.Issued meshes)
    (hmeshes : ∀ f ∈ Expr.functionsAll es, f.space.mesh ∈ meshes) {kernel : TensorKernel α}
    (hselect : R.select op es.length = .ok (.tensor kernel))
    (hvs : List.Forall₂ (fun e v => evaluate R e = .ok v) es vs) {err : EvalError}
    (h : applyTensor op kernel s vs = .error (.refused err)) : err.TellsOf R op es s := by
  have htensor : (R.tensor op).isSome = true := by
    rw [Rules.tensor_of_select hselect]
    rfl
  rcases applyTensor_eq_error h with ⟨_, hfs, hx⟩ | ⟨fs, _, rfl, hd, hx⟩
    | ⟨f, rest, rfl, hagree, ⟨⟨g, hg, hne⟩, -⟩ | ⟨-, hspace | ⟨-, n, -, _, hnode, hx⟩⟩⟩
  · cases hx
    obtain ⟨rfl, x, hx⟩ := functionOperands_eq_error.1 hfs
    exact .inr ⟨x, constant_mem_of_mem hvs hx⟩
  · cases hx
    exact tells_of_sharedDiscretization hvs hd
  · -- functions of one discretization have the same nodes
    exact absurd (hissued.nodeCount_eq (mesh_mem_of_mem hmeshes hvs (by simp))
      (mesh_mem_of_mem hmeshes hvs (by simp [hg])) (hagree g hg)) hne
  · rcases FunctionSpace.ofShape_eq_error hspace with
      ⟨hx, hrank⟩ | ⟨element, hx, hshape, hzero⟩ | ⟨hx, -⟩ | ⟨hx, -⟩
    · cases hx
      exact ⟨rfl, hrank, htensor⟩
    · cases hx
      exact ⟨Shape.zero_mem_dims hzero, htensor, element, hshape, rfl⟩
    · cases hx
    · cases hx
  · cases hx
    rcases TensorKernel.atNode_eq_error.1 hnode with ⟨cause, -, rfl⟩ | ⟨a, -, hshape, rfl⟩
    · exact ⟨rfl, htensor⟩
    · exact ⟨rfl, hshape, htensor⟩

/-- An operation raises errors that are true of it. -/
theorem Raises.tells (hissued : supply.Issued meshes)
    (hmeshes : ∀ f ∈ Expr.functionsAll es, f.space.mesh ∈ meshes) {err : EvalError}
    (h : Raises R op es s (.refused err)) : err.TellsOf R op es s := by
  cases h with
  | selection hselect => exact tells_of_selection hselect
  | @application kernel vs _ hselect hvs happly =>
      cases kernel with
      | pointwise k =>
          exact tells_of_pointwise hissued hmeshes hselect hvs
            (Failure.ofRefusal_eq_refused.1 happly)
      | tensor k => exact tells_of_tensor hissued hmeshes hselect hvs happly

/-! ## Reports of an evaluation -/

/-- What an evaluation over constructed meshes ends with, under any rules: a function of
a whole space with as many coefficients as this has degrees of freedom; a number; an
error that is true of an operation in the tree; or a fault, if the declared shape of a
tensor operation in the tree does not fit. -/
theorem evaluate_reports (hissued : supply.Issued meshes) (R : Rules α) {e : Expr α}
    (hmeshes : ∀ f ∈ e.functions, f.space.mesh ∈ meshes) :
    match evaluate R e with
    | .ok (.function f) => f.space.isSubSpace = false ∧ f.coefficients.size = f.space.dim
    | .ok (.number _) => True
    | .error (.refused err) =>
        ∃ op es s, (Expr.operation op es s).Within e ∧ err.TellsOf R op es s
    | .error (.fault _) =>
        ∃ op es s, (Expr.operation op es s).Within e ∧ (R.tensor op).isSome = true
          ∧ ∃ f ∈ Expr.functionsAll es, ¬ s.Fits f.space.nodeCount := by
  cases h : evaluate R e with
  | ok v =>
      cases v with
      | function f => exact ⟨by rw [FunctionSpace.isSubSpace, f.whole]; rfl, f.size_eq⟩
      | number x => trivial
  | error x =>
      cases x with
      | refused err =>
          obtain ⟨op, es, s, hwithin, hraises⟩ := exists_raises_of_evaluate h
          exact ⟨op, es, s, hwithin, hraises.tells hissued fun f hf =>
            hmeshes f (hwithin.mem_functions hf)⟩
      | fault cause => exact exists_not_fits_of_evaluate h

end

/-- The trace of a function on a segment, declared as a vector without components. -/
theorem evaluate_reports_segment :
    let u := segmentFunction (0 : Float) 1 #[1, 0, 0, 1, 2, 1, 1, 2] rfl
    let e : Expr Float := .operation .trace [.function u] (.vector 0)
    let err : EvalError := .space (.noComponents (.vector ⟨.lagrange, 1, .interval⟩ 0))
    evaluate Rules.standard e = .error (.refused err)
      ∧ ∃ op es s, (Expr.operation op es s).Within e
        ∧ err.TellsOf (Rules.standard : Rules Float) op es s := by
  intro u e err
  have h : evaluate Rules.standard e = .error (.refused err) := rfl
  have hmeshes : ∀ f ∈ e.functions, f.space.mesh ∈ [segment (0 : Float) 1] := by
    intro f hf
    obtain rfl : f = u := List.mem_singleton.1 hf
    exact List.mem_singleton.2 rfl
  have hreports := evaluate_reports (segment_issued 0 1) Rules.standard hmeshes
  rw [h] at hreports
  exact ⟨h, hreports⟩

end NodalAlgebra
