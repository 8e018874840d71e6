import NodalAlgebra.Expr.Shaped
import NodalAlgebra.Proofs.Difference
import NodalAlgebra.Proofs.Discretization
import NodalAlgebra.Proofs.KernelShapes
import NodalAlgebra.Proofs.Nodewise
import NodalAlgebra.Scalar.Real

/-!
# Soundness of declared shapes

Where every operation declares the shape that follows from its operands, the
standard rules evaluate an expression to a value of the declared shape or fail for a
reason that shapes say nothing about (`evaluate_shaped`): spaces that do not agree, a
missing function, a rank above two, the selection of a component, or a singular
matrix. Only shapes that do not fit into a machine lead to a fault.
-/

namespace NodalAlgebra

/-- The shape of a value. -/
def Value.shape {α : Type} : Value α → Shape
  | .function f => f.valueShape
  | .number _ => .scalar

theorem Value.positive_shape {α : Type} (v : Value α) : v.shape.Positive := by
  cases v with
  | function f =>
      rw [shape, NodalFunction.valueShape_eq_whole]
      exact FiniteElement.positive_valueShape f.space.components_pos
  | number x => simp [shape, Shape.Positive, Shape.scalar]

/-- The errors that are left where every operation declares the shape that follows
from its operands: none tells of a wrong shape or a wrong number of operands. -/
def EvalError.OfShaped : EvalError → Prop
  | .inconsistentSpace _ => True
  | .noFunctionOperand => True
  | .unsupportedRank _ => True
  | .unsupportedOperator op => op = .indexed
  | .kernel op cause => op.inverts = true ∧ cause = .singular
  | _ => False

section

variable {α : Type}

/-! ## Pointwise operations -/

/-- The result has the shape of every function among the operands. -/
theorem valueShape_of_applyPointwise {op : Operator} {kernel : PointwiseKernel α}
    {vs : List (Value α)} {g : NodalFunction α} (h : applyPointwise op kernel vs = .ok g) :
    (∃ f, .function f ∈ vs) ∧ ∀ f, .function f ∈ vs → f.valueShape = g.valueShape := by
  obtain ⟨⟨f₀, hf₀, -⟩, hspaces⟩ := space_of_applyPointwise h
  refine ⟨⟨f₀, hf₀⟩, ?_⟩
  intro f hf
  rw [f.valueShape_eq_whole, g.valueShape_eq_whole, (hspaces f hf).1]

/-- Two operands whose shapes decide that of the result: the result has it. -/
theorem valueShape_of_pointwise {op : Operator} {kernel : PointwiseKernel α} {v w : Value α}
    {s : Shape} {g : NodalFunction α} (h : applyPointwise op kernel [v, w] = .ok g)
    (hs : v.shape.Pointwise w.shape s) : g.valueShape = s := by
  obtain ⟨⟨f, hf⟩, hshapes⟩ := valueShape_of_applyPointwise h
  have hv : ∀ f, v = .function f → v.shape = g.valueShape := by
    rintro f rfl
    exact hshapes f (by simp)
  have hw : ∀ f, w = .function f → w.shape = g.valueShape := by
    rintro f rfl
    exact hshapes f (by simp)
  -- an operand that is no function is scalar, and then the other one is a function
  have hnumbers : v.shape = g.valueShape ∨ (v.shape = .scalar ∧ w.shape = g.valueShape) := by
    rcases (by simpa using hf : .function f = v ∨ .function f = w) with rfl | rfl
    · exact .inl (hv f rfl)
    · cases v with
      | function f' => exact .inl (hv f' rfl)
      | number x => exact .inr ⟨rfl, hw f rfl⟩
  have hnumbers' : w.shape = g.valueShape ∨ (w.shape = .scalar ∧ v.shape = g.valueShape) := by
    cases w with
    | function f' => exact .inl (hw f' rfl)
    | number y =>
        rcases (by simpa using hf : .function f = v) with rfl
        exact .inr ⟨rfl, hv f rfl⟩
  rcases hs with ⟨hvw, rfl⟩ | ⟨hscalar, rfl⟩ | ⟨hscalar, rfl⟩
  · rcases hnumbers with h | ⟨-, h⟩
    · exact h.symm
    · rw [hvw, h]
  · rcases hnumbers with h | ⟨h, h'⟩
    · exact h.symm
    · rw [← h', hscalar, h]
  · rcases hnumbers' with h | ⟨h, h'⟩
    · exact h.symm
    · rw [← h', hscalar, h]

/-! ## Tensor operations -/

/-- A failure that an expression with well-declared shapes can have. -/
def Expr.FailsWith (e : Expr α) : Failure EvalError → Prop
  | .refused err => err.OfShaped
  | .fault _ => ¬ e.SizesFit

theorem Expr.failsWith_operand {op : Operator} {es : List (Expr α)} {s : Shape} {e : Expr α}
    (he : e ∈ es) {x : Failure EvalError} (h : e.FailsWith x) :
    (Expr.operation op es s).FailsWith x := by
  cases x with
  | refused err => exact h
  | fault cause => exact fun hfit => h ((eachOperation_operation.1 hfit).2 e he)

theorem failsWith_of_applyPointwise {op : Operator} {kernel : PointwiseKernel α}
    {es : List (Expr α)} {s : Shape} {vs : List (Value α)} {x : Failure EvalError}
    (harity : vs.length = kernel.arity)
    (h : Failure.ofRefusal (applyPointwise op kernel vs) = .error x) :
    (Expr.operation op es s).FailsWith x := by
  cases x with
  | refused err =>
      rcases applyPointwise_eq_error (Failure.ofRefusal_eq_refused.1 h) with
        hV | ⟨V, cause, -, hcause, rfl⟩
      · rcases sharedSpace_eq_error hV with ⟨rfl, -⟩ | ⟨_, _, _, -, -, -, rfl⟩
        · trivial
        · trivial
      · rcases PointwiseKernel.apply_eq_error hcause with
          ⟨-, hlength⟩ | ⟨rfl, -⟩ | ⟨_, _, -, -, rfl⟩
        · rw [List.length_map] at hlength
          exact absurd harity hlength
        · trivial
        · trivial
  | fault cause => exact absurd h Failure.ofRefusal_ne_fault

section Tensor

variable [Zero α]

/-- A tensor operation fails as it may, if its kernel has a value of the declared
shape at every node or is stopped by a singular matrix. -/
theorem failsWith_of_applyTensor {R : Rules α} {op : Operator} {kernel : TensorKernel α}
    {es : List (Expr α)} {s : Shape} {vs : List (Value α)} {x : Failure EvalError}
    (htensorial : op.isTensorial = true)
    (hvs : List.Forall₂ (fun e v => evaluate R e = .ok v) es vs) (hpos : s.Positive)
    (hkernel : ∀ (fs : List (NodalFunction α)) n, vs = fs.map .function →
      (∀ f ∈ fs, n < f.space.nodeCount) → s.rank ≤ 2 →
      (∃ a, kernel.atNode op s fs n = .ok a)
        ∨ op.inverts = true ∧ kernel.atNode op s fs n = .error (.kernel op .singular))
    (h : applyTensor op kernel s vs = .error x) : (Expr.operation op es s).FailsWith x := by
  rcases applyTensor_eq_error h with ⟨err, hfs, rfl⟩ | ⟨fs, err, -, hd, rfl⟩
    | ⟨f, rest, rfl, -, ⟨-, rfl⟩ | ⟨hcounts, h⟩⟩
  · obtain ⟨rfl, -⟩ := functionOperands_eq_error.1 hfs
    trivial
  · rcases sharedDiscretization_eq_error hd with ⟨rfl, -⟩ | ⟨_, -, _, -, ⟨-, rfl⟩ | ⟨-, rfl⟩⟩
    · trivial
    · trivial
    · trivial
  · trivial
  rcases h with hspace | ⟨hrank, n, hn, err, hnode, rfl⟩
  · cases x with
    | refused err =>
        rcases FunctionSpace.ofShape_eq_error hspace with
          ⟨hx, -⟩ | ⟨_, -, -, hzero⟩ | ⟨hx, -⟩ | ⟨hx, -⟩
        · cases hx
          trivial
        · exact absurd hzero (Nat.ne_of_gt hpos.componentCount_pos)
        · cases hx
        · cases hx
    | fault cause =>
        intro hall
        obtain ⟨e, he, hef⟩ := exists_of_mem_forall₂ hvs (b := .function f) (by simp)
        obtain ⟨f', hf', hcount⟩ := exists_nodeCount_of_evaluate hef
        have hfit := (Expr.eachOperation_operation.1 hall).1 htensorial f'
          (Expr.mem_functionsAll.2 ⟨e, he, hf'⟩)
        exact FunctionSpace.not_fits_of_ofShape hspace (hcount ▸ hfit)
  · have hfs : ∀ g ∈ f :: rest, n < g.space.nodeCount :=
      List.forall_mem_cons.2 ⟨hn, fun g hg => hcounts g hg ▸ hn⟩
    rcases hkernel (f :: rest) n rfl hfs hrank with ⟨a, ha⟩ | ⟨hinverts, hsingular⟩
    · rw [ha] at hnode
      cases hnode
    · rw [hsingular] at hnode
      cases hnode
      exact ⟨hinverts, rfl⟩

end Tensor

section Standard

variable [Zero α] [One α] [Add α] [Sub α] [Mul α] [Div α] [NatCast α] [LinearSolver α]
  {op : Operator} {kernel : TensorKernel α}

/-- At a node of a function of accepted shape, a standard kernel has a value of the
expected shape, or it needs the inverse of a singular matrix. -/
theorem standardTensor_atNode_unary (hkernel : KernelTables.standardTensor op = some kernel)
    {f : NodalFunction α} {s : Shape} (hshape : op.unaryShape f.valueShape = .ok s) {n : Nat}
    (hn : n < f.space.nodeCount) :
    (∃ b, kernel.atNode op s [f] n = .ok b)
      ∨ op.inverts = true ∧ ∃ a, f.nodeValue? n = some a ∧ a.Singular
        ∧ kernel.atNode op s [f] n = .error (.kernel op .singular) := by
  obtain ⟨a, ha⟩ := f.exists_nodeValue? hn
  have hvalues : [f].filterMap (·.nodeValue? n) = [a] := by simp [ha]
  rw [← (NodalFunction.nodeValue?_eq_some.1 ha).2.1] at hshape
  by_cases hsingular : op.inverts = true ∧ a.Singular
  · refine .inr ⟨hsingular.1, a, ha, hsingular.2, ?_⟩
    refine TensorKernel.atNode_eq_error.2 (.inl ⟨_, ?_, rfl⟩)
    rw [hvalues]
    exact standardTensor_singular hkernel hsingular.1 hsingular.2
  · obtain ⟨b, hb, hbs⟩ := standardTensor_unary hkernel hshape fun h h' => hsingular ⟨h, h'⟩
    exact .inl ⟨b, TensorKernel.atNode_eq_ok.2 ⟨by rw [hvalues]; exact hb, hbs⟩⟩

/-- At a node of two functions of accepted shapes, a standard kernel has a value of the
expected shape. -/
theorem standardTensor_atNode_binary (hkernel : KernelTables.standardTensor op = some kernel)
    {f g : NodalFunction α} {s : Shape}
    (hshape : op.binaryShape f.valueShape g.valueShape = .ok s) (hrank : s.rank ≤ 2) {n : Nat}
    (hf : n < f.space.nodeCount) (hg : n < g.space.nodeCount) :
    ∃ c, kernel.atNode op s [f, g] n = .ok c := by
  obtain ⟨a, ha⟩ := f.exists_nodeValue? hf
  obtain ⟨b, hb⟩ := g.exists_nodeValue? hg
  have hvalues : [f, g].filterMap (·.nodeValue? n) = [a, b] := by simp [ha, hb]
  rw [← (NodalFunction.nodeValue?_eq_some.1 ha).2.1,
    ← (NodalFunction.nodeValue?_eq_some.1 hb).2.1] at hshape
  obtain ⟨c, hc, hcs⟩ := standardTensor_binary hkernel hshape hrank
  exact ⟨c, TensorKernel.atNode_eq_ok.2 ⟨by rw [hvalues]; exact hc, hcs⟩⟩

end Standard

end

/-! ## Expressions -/

section

variable {α : Type} [Zero α] [One α] [Add α] [Sub α] [Mul α] [Div α] [NatCast α]
  [Elementary α] [LinearSolver α]

/-- The value of a shaped expression has the declared shape. -/
theorem shape_of_evaluate {e : Expr α} (he : e.Shaped) {v : Value α}
    (h : evaluate Rules.standard e = .ok v) : v.shape = e.shape := by
  induction he generalizing v with
  | function f =>
      cases h
      rfl
  | constant x =>
      cases h
      rfl
  | @unary op a s ha hs ih =>
      obtain ⟨kernel, vs, g, hselect, hvs, hg, rfl⟩ := evaluate_operation_eq_ok.1 h
      obtain ⟨v, rfl, hv⟩ := forall₂_singleton hvs
      rcases select_of_unaryShape (α := α) hs with ⟨φ, hφ, -, rfl⟩ | ⟨k, hk, -, -⟩
      · cases hselect.symm.trans hφ
        obtain ⟨⟨f, hf⟩, hshapes⟩ := valueShape_of_applyPointwise (Failure.ofRefusal_eq_ok.1 hg)
        obtain rfl : .function f = v := by simpa using hf
        exact (hshapes f (by simp)).symm.trans (ih hv)
      · cases hselect.symm.trans hk
        obtain ⟨_, _, _, _, _, _, _, hshape, _, _⟩ := applyTensor_eq_ok.1 hg
        exact hshape
  | @binary op a b s ha hb hs iha ihb =>
      obtain ⟨kernel, vs, g, hselect, hvs, hg, rfl⟩ := evaluate_operation_eq_ok.1 h
      obtain ⟨v, w, rfl, hv, hw⟩ := forall₂_pair hvs
      rcases select_of_binaryShape (α := α) hs with ⟨φ, hφ, -, hpointwise⟩ | ⟨k, hk, -, -⟩
      · cases hselect.symm.trans hφ
        rw [← iha hv, ← ihb hw] at hpointwise
        exact valueShape_of_pointwise (Failure.ofRefusal_eq_ok.1 hg) hpointwise
      · cases hselect.symm.trans hk
        obtain ⟨_, _, _, _, _, _, _, hshape, _, _⟩ := applyTensor_eq_ok.1 hg
        exact hshape
  | component ha hindex =>
      obtain ⟨kernel, _, _, hselect, -, -, -⟩ := evaluate_operation_eq_ok.1 h
      rw [select_indexed] at hselect
      cases hselect

/-- An operation on shaped operands fails with one of them, or as its kernel does. -/
theorem failsWith_of_operation {op : Operator} {es : List (Expr α)} {s : Shape}
    {kernel : Kernel α} (hselect : Rules.standard.select op es.length = .ok kernel)
    (hes : ∀ e ∈ es, ∀ x, evaluate Rules.standard e = .error x → e.FailsWith x)
    (hkernel : ∀ vs x, List.Forall₂ (fun e v => evaluate Rules.standard e = .ok v) es vs →
      kernel.apply op s vs = .error x → (Expr.operation op es s).FailsWith x)
    {x : Failure EvalError} (h : evaluate Rules.standard (.operation op es s) = .error x) :
    (Expr.operation op es s).FailsWith x := by
  rcases evaluate_operation_eq_error.1 h with h | ⟨kernel', hselect', h | ⟨vs, hvs, h⟩⟩
  · rw [hselect] at h
    cases h
  · rw [evaluateAll_eq_mapM] at h
    obtain ⟨before, e, after, rfl, -, he⟩ := mapM_eq_error.1 h
    exact Expr.failsWith_operand (by simp) (hes e (by simp) x he)
  · cases hselect.symm.trans hselect'
    exact hkernel vs x hvs h

/-- A shaped expression fails for a reason that shapes say nothing about. -/
theorem failsWith_of_shaped {e : Expr α} (he : e.Shaped) {x : Failure EvalError}
    (h : evaluate Rules.standard e = .error x) : e.FailsWith x := by
  induction he generalizing x with
  | function f => cases h
  | constant y => cases h
  | @unary op a s ha hs ih =>
      have hes : ∀ e ∈ [a], ∀ x, evaluate Rules.standard e = .error x → e.FailsWith x := by
        intro e he
        obtain rfl := List.mem_singleton.1 he
        exact fun x => ih
      rcases select_of_unaryShape (α := α) hs with ⟨φ, hφ, -, -⟩ | ⟨k, hk, htensorial, hkernel⟩
      · refine failsWith_of_operation hφ hes (fun vs y hvs hy => ?_) h
        exact failsWith_of_applyPointwise hvs.length_eq.symm hy
      · refine failsWith_of_operation hk hes (fun vs y hvs hy => ?_) h
        obtain ⟨v, rfl, hv⟩ := forall₂_singleton hvs
        have hshape : op.unaryShape v.shape = .ok s := by rwa [shape_of_evaluate ha hv]
        have hpos := Operator.unaryShape_positive hshape v.positive_shape
        refine failsWith_of_applyTensor htensorial hvs hpos (fun fs n hfs hn _ => ?_) hy
        obtain ⟨f, rfl, rfl⟩ := List.map_eq_singleton_iff.1 hfs.symm
        rcases standardTensor_atNode_unary hkernel hshape (hn f (by simp)) with
          hb | ⟨hinverts, _, -, -, hsingular⟩
        · exact .inl hb
        · exact .inr ⟨hinverts, hsingular⟩
  | @binary op a b s ha hb hs iha ihb =>
      have hes : ∀ e ∈ [a, b], ∀ x, evaluate Rules.standard e = .error x → e.FailsWith x := by
        intro e he
        rcases (by simpa using he : e = a ∨ e = b) with rfl | rfl
        · exact fun x => iha
        · exact fun x => ihb
      rcases select_of_binaryShape (α := α) hs with ⟨φ, hφ, -, -⟩ | ⟨k, hk, htensorial, hkernel⟩
      · refine failsWith_of_operation hφ hes (fun vs y hvs hy => ?_) h
        exact failsWith_of_applyPointwise hvs.length_eq.symm hy
      · refine failsWith_of_operation hk hes (fun vs y hvs hy => ?_) h
        obtain ⟨v, w, rfl, hv, hw⟩ := forall₂_pair hvs
        have hshape : op.binaryShape v.shape w.shape = .ok s := by
          rwa [shape_of_evaluate ha hv, shape_of_evaluate hb hw]
        have hpos := Operator.binaryShape_positive hshape v.positive_shape w.positive_shape
        refine failsWith_of_applyTensor htensorial hvs hpos (fun fs n hfs hn hrank => ?_) hy
        obtain ⟨f, g, rfl, rfl, rfl⟩ := map_eq_pair hfs.symm
        exact .inl (standardTensor_atNode_binary hkernel hshape hrank (hn f (by simp))
          (hn g (by simp)))
  | component ha hindex =>
      rcases evaluate_operation_eq_error.1 h with h | ⟨kernel, hselect, -⟩
      · rw [select_indexed] at h
        cases h
        rfl
      · rw [select_indexed] at hselect
        cases hselect

/-- What the standard rules make of an expression in which every operation declares
the shape that follows from its operands: a function with values of the declared
shape, a number where a scalar is declared, or an error that does not tell of a wrong
shape or number of operands. There is no fault if the declared shapes fit. -/
theorem evaluate_shaped {e : Expr α} (he : e.Shaped) :
    match evaluate Rules.standard e with
    | .ok (.function f) => f.valueShape = e.shape
    | .ok (.number _) => e.shape = .scalar
    | .error (.refused err) => err.OfShaped
    | .error (.fault _) => ¬ e.SizesFit := by
  cases h : evaluate Rules.standard e with
  | ok v =>
      cases v with
      | function f => exact shape_of_evaluate he h
      | number x => exact (shape_of_evaluate he h).symm
  | error x =>
      cases x with
      | refused err => exact failsWith_of_shaped he h
      | fault cause => exact failsWith_of_shaped he h

end

/-- The trace of the negative of a real function on a segment is a function of numbers. -/
theorem evaluate_shaped_segment :
    let u : NodalFunction ℝ := segmentFunction 0 1 #[1, 2, 3, 4, 5, 6, 7, 8] rfl
    let e : Expr ℝ :=
      .operation .trace [.operation .product [.constant (-1), .function u] (.matrix 2 2)] .scalar
    ∃ g, evaluate Rules.standard e = .ok (.function g) ∧ g.valueShape = .scalar := by
  intro u e
  obtain ⟨f, hf, hspace, -⟩ := evaluate_neg (b := .function u) rfl
  have hcount : f.space.nodeCount = 2 := by
    rw [hspace]
    rfl
  have hshape : f.valueShape = .matrix 2 2 := by
    rw [NodalFunction.valueShape, hspace]
    rfl
  have hfits : Shape.scalar.Fits f.space.nodeCount := by
    rw [hcount]
    exact ⟨rfl, by decide, by decide⟩
  obtain ⟨W, hW⟩ := FunctionSpace.exists_ofShape (by decide) (by decide) hfits
  have htrace : KernelTables.standardTensor .trace = some (TensorKernel.trace (α := ℝ)) := rfl
  have hvalues : ∀ n < f.space.nodeCount,
      ∃ a, TensorKernel.trace.atNode .trace .scalar [f] n = .ok a := fun n hn =>
    (standardTensor_atNode_unary htrace (by rw [hshape]; rfl) hn).resolve_right
      fun h => Bool.false_ne_true h.1
  obtain ⟨g, hg⟩ := exists_applyTensor .trace TensorKernel.trace (by simp) (by simp) hW hvalues
  have he : evaluate Rules.standard e = .ok (.function g) :=
    evaluate_operation_eq_ok.2
      ⟨.tensor TensorKernel.trace, [.function f], g, rfl, .cons hf .nil, hg, rfl⟩
  have hshaped : e.Shaped := .unary (.binary (.constant (-1)) (.function u) rfl) rfl
  have hscalar : e.shape = .scalar := rfl
  -- with its value forgotten, the tree is not evaluated over the real numbers
  clear_value e
  have hresult := evaluate_shaped hshaped
  rw [he] at hresult
  exact ⟨g, he, hresult.trans hscalar⟩

end NodalAlgebra
