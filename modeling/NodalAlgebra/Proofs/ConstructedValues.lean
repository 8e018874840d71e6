import Mathlib.Data.Nat.Find
import NodalAlgebra.Expr.Build
import NodalAlgebra.Proofs.Broadcasting
import NodalAlgebra.Proofs.Difference
import NodalAlgebra.Proofs.NodeOutcomes
import NodalAlgebra.Proofs.ShapeInference
import NodalAlgebra.Proofs.Transposition

/-!
# Values of constructed expressions

An expression that is put together step by step, each operation declaring the shape that
follows from its operands, can be followed node by node: if the operands have functions as
values, all on one mesh and for one scalar element, and a kernel has a value at every node,
then the operation can be constructed and has a function as its value, with the kernel's
values at the nodes (`HasValues.unary`, `HasValues.binary`, `HasValues.pointwise`). Two
expressions with the same values at the nodes evaluate to the same coefficients
(`HasValues.sameFunction`).
-/

namespace NodalAlgebra

variable {α : Type}

/-- Functions of one shape next to one space live in one space. -/
theorem NodalFunction.space_eq_of_nextTo {f g : NodalFunction α} {V : FunctionSpace α}
    (hf : f.space.NextTo V) (hg : g.space.NextTo V) (hshape : f.valueShape = g.valueShape) :
    f.space = g.space := by
  have hnext : f.space.NextTo g.space :=
    ⟨hf.mesh_eq.trans hg.mesh_eq.symm, hf.scalarElement_eq.trans hg.scalarElement_eq.symm⟩
  rw [f.valueShape_eq_whole, g.valueShape_eq_whole] at hshape
  exact FunctionSpace.ext_data hnext.mesh_eq (hnext.whole_eq hshape) (f.whole.trans g.whole.symm)

/-- The values of a function fit next to every space that its own space is next to. -/
theorem NodalFunction.fits_of_nextTo {f : NodalFunction α} {V : FunctionSpace α}
    (h : f.space.NextTo V) : f.valueShape.Fits V.nodeCount := by
  rw [f.valueShape_eq_whole, ← h.nodeCount_eq]
  exact f.space.fits

/-- There is room for the values of an operation that have no more components than those of
its operand. -/
theorem NodalFunction.fits_unary {f : NodalFunction α} {op : Operator} {t : Shape}
    (hshape : op.unaryShape f.valueShape = .ok t)
    (hcount : t.componentCount ≤ f.valueShape.componentCount) :
    t.Positive ∧ t.Fits f.space.nodeCount := by
  have hpos : t.Positive :=
    Operator.unaryShape_positive hshape (Value.function f).positive_shape
  exact ⟨hpos, hpos.fits_of_le (fits_of_nextTo ⟨rfl, rfl⟩) hcount⟩

theorem Shape.isSquare_matrix (n : Nat) : (Shape.matrix n n).isSquare = true :=
  isSquare_iff.2 ⟨n, rfl⟩

variable [Zero α] [One α] [Add α] [Sub α] [Mul α] [Div α] [NatCast α] [Elementary α]
  [LinearSolver α]

/-- A construction leads to an expression of the given shape, and this evaluates by the
standard rules to a function next to a space which has the given value at every node. -/
def HasValues (x : Except ShapeError (Expr α)) (V : FunctionSpace α) (s : Shape)
    (a : Nat → TensorValue α) : Prop :=
  ∃ e f, x = .ok e ∧ e.shape = s ∧ evaluate Rules.standard e = .ok (.function f)
    ∧ f.space.NextTo V ∧ f.valueShape = s ∧ ∀ n < V.nodeCount, f.nodeValue? n = some (a n)

/-- Two constructions lead to expressions that evaluate by the standard rules to functions in
compatible spaces with the same coefficients, and with the same value at every node. -/
def SameFunction (x y : Except ShapeError (Expr α)) : Prop :=
  ∃ e e' f g, x = .ok e ∧ y = .ok e' ∧ evaluate Rules.standard e = .ok (.function f)
    ∧ evaluate Rules.standard e' = .ok (.function g) ∧ f.space.isCompatible g.space = true
    ∧ f.coefficients = g.coefficients ∧ ∀ n, f.nodeValue? n = g.nodeValue? n

/-- A construction leads to an expression with a value by the standard rules. -/
def Evaluates (x : Except ShapeError (Expr α)) : Prop :=
  ∃ e v, x = .ok e ∧ evaluate Rules.standard e = .ok v

/-- A construction leads to an expression that the standard rules refuse for some reason. -/
def IsRefused (x : Except ShapeError (Expr α)) (reason : EvalError) : Prop :=
  ∃ e, x = .ok e ∧ evaluate Rules.standard e = .error (.refused reason)

/-- What is refused has no value. -/
theorem IsRefused.not_evaluates {x : Except ShapeError (Expr α)} {reason : EvalError}
    (h : IsRefused x reason) : ¬ Evaluates x := by
  obtain ⟨e, rfl, he⟩ := h
  rintro ⟨e', v, hx, hv⟩
  cases hx
  rw [he] at hv
  cases hv

namespace HasValues

variable {x y : Except ShapeError (Expr α)} {V : FunctionSpace α} {s t r : Shape}
  {a b c : Nat → TensorValue α} {op : Operator} {kernel : TensorKernel α} {φ : α → α → α}

/-! ## Functions -/

theorem function {u : NodalFunction α} (h : ∀ n < u.space.nodeCount, u.nodeValue? n = some (a n)) :
    HasValues (.ok (.function u)) u.space u.valueShape a :=
  ⟨_, u, rfl, rfl, rfl, ⟨rfl, rfl⟩, rfl, h⟩

/-- A function as an expression has its own values. -/
theorem nodeValue? {u : NodalFunction α} {n : Nat} (h : HasValues (.ok (.function u)) V s a)
    (hn : n < V.nodeCount) : u.nodeValue? n = some (a n) := by
  obtain ⟨_, _, hx, -, he, -, -, hvalues⟩ := h
  cases hx
  cases he
  exact hvalues n hn

theorem evaluates (h : HasValues x V s a) : Evaluates x := by
  obtain ⟨e, f, hx, -, he, -⟩ := h
  exact ⟨e, .function f, hx, he⟩

theorem congr (h : HasValues x V s a) (hab : ∀ n < V.nodeCount, a n = b n) :
    HasValues x V s b := by
  obtain ⟨e, f, hx, hs, he, hnext, hshape, hvalues⟩ := h
  exact ⟨e, f, hx, hs, he, hnext, hshape, fun n hn => hab n hn ▸ hvalues n hn⟩

/-- Expressions with the same values at the nodes evaluate to the same function. -/
theorem sameFunction (hx : HasValues x V s a) (hy : HasValues y V s b)
    (hab : ∀ n < V.nodeCount, a n = b n) : SameFunction x y := by
  obtain ⟨e, f, hx, -, he, hnext, hshape, hvalues⟩ := hx
  obtain ⟨e', g, hy, -, he', hnext', hshape', hvalues'⟩ := hy
  have hspace : f.space = g.space := NodalFunction.space_eq_of_nextTo hnext hnext'
    (hshape.trans hshape'.symm)
  have hequal : ∀ n < f.space.nodeCount, f.nodeValue? n = g.nodeValue? n := by
    intro n hn
    rw [hnext.nodeCount_eq] at hn
    rw [hvalues n hn, hvalues' n hn, hab n hn]
  have hcoefficients : f.coefficients = g.coefficients :=
    NodalFunction.coefficients_eq_of_values (by rw [hspace]) (hshape.trans hshape'.symm) hequal
  refine ⟨e, e', f, g, hx, hy, he, he', ?_, hcoefficients, fun n => ?_⟩
  · rw [hspace]
    exact (FunctionSpace.isCompatible_iff g.whole g.whole).2 ⟨rfl, rfl⟩
  · simp only [NodalFunction.nodeValue?, NodalFunction.valueShape, hspace, hcoefficients]

/-- The values have components. -/
theorem componentCount_pos (h : HasValues x V s a) : 0 < s.componentCount := by
  obtain ⟨e, f, -, -, -, -, rfl, -⟩ := h
  exact (Value.function f).positive_shape.componentCount_pos

/-! ## Tensor operations -/

/-- An operation on one operand has the kernel's values. -/
theorem unary (h : HasValues x V s a) (hselect : Rules.standard.select op 1 = .ok (.tensor kernel))
    (hshape : op.unaryShape s = .ok t) (hrank : t.rank ≤ 2)
    (hcount : t.componentCount ≤ s.componentCount)
    (hb : ∀ n < V.nodeCount, kernel [a n] = .ok (b n) ∧ (b n).shape = t) :
    HasValues (x >>= Expr.unary op) V t b := by
  obtain ⟨e, f, rfl, hs, he, hnext, rfl, hvalues⟩ := h
  have hnodes : f.space.nodeCount = V.nodeCount := hnext.nodeCount_eq
  obtain ⟨hpos, hfits⟩ := NodalFunction.fits_unary hshape hcount
  have hanswers : ∀ n v, f.nodeValue? n = some v → kernel.Answers t [v] := by
    intro n v hv
    have hn : n < V.nodeCount := hnodes ▸ (NodalFunction.nodeValue?_eq_some.1 hv).1
    rw [hvalues n hn] at hv
    cases hv
    exact ⟨b n, hb n hn⟩
  obtain ⟨g, hg, hgnext, hgshape, hgvalues⟩ :=
    exists_evaluate_unary hselect he hrank hpos hfits hanswers
  refine ⟨.operation op [e] t, g, ?_, rfl, hg, hgnext.trans hnext, hgshape, fun n hn => ?_⟩
  · rw [ok_bind, Expr.unary, hs, hshape]
    rfl
  · obtain ⟨v, hv, hgv⟩ := hgvalues n _ (hvalues n hn)
    rw [(hb n hn).1] at hv
    cases hv
    exact hgv

/-- An operation whose kernel has only one reason to fail is refused for it if there is a node
at which the kernel fails. -/
theorem unary_refused {cause : KernelError} {k : Nat} (h : HasValues x V s a)
    (hselect : Rules.standard.select op 1 = .ok (.tensor kernel))
    (hshape : op.unaryShape s = .ok t) (hrank : t.rank ≤ 2)
    (hcount : t.componentCount ≤ s.componentCount)
    (hkernel : ∀ n < V.nodeCount, kernel [a n] = .error cause ∨ kernel.Answers t [a n])
    (hk : k < V.nodeCount) (hfail : kernel [a k] = .error cause) :
    IsRefused (x >>= Expr.unary op) (.kernel op cause) := by
  obtain ⟨e, f, rfl, hs, he, hnext, rfl, hvalues⟩ := h
  have hnodes : f.space.nodeCount = V.nodeCount := hnext.nodeCount_eq
  obtain ⟨hpos, hfits⟩ := NodalFunction.fits_unary hshape hcount
  have hargs : ∀ n < V.nodeCount, [f].filterMap (·.nodeValue? n) = [a n] := by
    intro n hn
    simp [hvalues n hn]
  -- the first node at which the kernel fails decides
  classical
  have hsome : ∃ n, n < V.nodeCount ∧ kernel [a n] = .error cause := ⟨k, hk, hfail⟩
  obtain ⟨hn, herror⟩ := Nat.find_spec hsome
  have hbefore : ∀ m < Nat.find hsome, kernel.Answers t ([f].filterMap (·.nodeValue? m)) := by
    intro m hm
    have hm' : m < V.nodeCount := hm.trans hn
    rw [hargs m hm']
    rcases hkernel m hm' with hfails | hanswers
    · exact absurd ⟨hm', hfails⟩ (Nat.find_min hsome hm)
    · exact hanswers
  have hatNode : kernel.atNode op t [f] (Nat.find hsome) = .error (.kernel op cause) :=
    TensorKernel.atNode_eq_error.2 (.inl ⟨cause, by rw [hargs _ hn]; exact herror, rfl⟩)
  refine ⟨.operation op [e] t, ?_, ?_⟩
  · rw [ok_bind, Expr.unary, hs, hshape]
    rfl
  · rw [evaluate_of_tensor hselect (evaluateAll_eq_ok.2 (.cons he .nil)),
      ← List.map_singleton, applyTensor_of_first (List.forall_mem_nil _) hrank hpos hfits
        (Nat.lt_of_lt_of_eq hn hnodes.symm) hbefore hatNode]
    rfl

/-- An operation on two operands has the kernel's values. -/
theorem binary (hx : HasValues x V s a) (hy : HasValues y V t b)
    (hselect : Rules.standard.select op 2 = .ok (.tensor kernel))
    (hshape : op.binaryShape s t = .ok r) (hrank : r.rank ≤ 2)
    (hcount : r.componentCount ≤ s.componentCount)
    (hc : ∀ n < V.nodeCount, kernel [a n, b n] = .ok (c n) ∧ (c n).shape = r) :
    HasValues (do Expr.binary op (← x) (← y)) V r c := by
  obtain ⟨e, f, rfl, hs, he, hnext, rfl, hvalues⟩ := hx
  obtain ⟨e', f', rfl, ht, he', hnext', rfl, hvalues'⟩ := hy
  have hnodes : f.space.nodeCount = V.nodeCount := hnext.nodeCount_eq
  have hbeside : ∀ g ∈ [f'], g.space.NextTo f.space := List.forall_mem_singleton.2
    ⟨hnext'.mesh_eq.trans hnext.mesh_eq.symm,
      hnext'.scalarElement_eq.trans hnext.scalarElement_eq.symm⟩
  have hpos : r.Positive := Operator.binaryShape_positive hshape
    (Value.function f).positive_shape (Value.function f').positive_shape
  have hfits : r.Fits f.space.nodeCount :=
    hpos.fits_of_le (hnodes ▸ NodalFunction.fits_of_nextTo hnext) hcount
  have hargs : ∀ n < V.nodeCount, [f, f'].filterMap (·.nodeValue? n) = [a n, b n] := by
    intro n hn
    simp [hvalues n hn, hvalues' n hn]
  have hes : evaluateAll Rules.standard [e, e'] = .ok ([f, f'].map .function) :=
    evaluateAll_eq_ok.2 (.cons he (.cons he' .nil))
  obtain ⟨g, hg, hgnext, hgshape, hgvalues⟩ := exists_evaluate_tensor hselect hes hbeside hrank
    hpos hfits fun n hn => by
      rw [hargs n (hnodes ▸ hn)]
      exact ⟨c n, hc n (hnodes ▸ hn)⟩
  refine ⟨.operation op [e, e'] r, g, ?_, rfl, hg, hgnext.trans hnext, hgshape, fun n hn => ?_⟩
  · rw [ok_bind, ok_bind, Expr.binary, hs, ht, hshape]
    rfl
  · obtain ⟨v, hv, hgv⟩ := hgvalues n ((hgnext.trans hnext).nodeCount_eq ▸ hn)
    rw [hargs n hn, (hc n hn).1] at hv
    cases hv
    exact hgv

/-! ## Pointwise operations -/

/-- An operation that combines the components of two operands of one shape. -/
theorem pointwise (op : Operator) (hx : HasValues x V s a) (hy : HasValues y V s b)
    (hkernel : (Rules.standard : Rules α).pointwise op = some (.binary φ))
    (hshape : op.binaryShape s s = .ok s)
    (hc : ∀ n < V.nodeCount, TensorValue.zipWith? φ (a n) (b n) = some (c n)) :
    HasValues (do Expr.binary op (← x) (← y)) V s c := by
  obtain ⟨e, f, rfl, hs, he, hnext, rfl, hvalues⟩ := hx
  obtain ⟨e', f', rfl, hs', he', hnext', hshape', hvalues'⟩ := hy
  have hspace : f'.space = f.space := NodalFunction.space_eq_of_nextTo hnext' hnext hshape'
  have hsize : f.coefficients.size = f'.coefficients.size := by
    rw [f.size_eq, f'.size_eq, hspace]
  let g : NodalFunction α :=
    ⟨f.space, Array.zipWith φ f.coefficients f'.coefficients, none, f.whole, by
      rw [Array.size_zipWith, ← hsize, Nat.min_self, f.size_eq]⟩
  have hg : evaluate Rules.standard (.operation op [e, e'] f.valueShape) = .ok (.function g) :=
    evaluate_of_binary hkernel he he' _ (sharedSpace_pair hspace) (if_pos hsize) rfl
  refine ⟨_, g, ?_, rfl, hg, hnext, rfl, fun n hn => ?_⟩
  · rw [ok_bind, ok_bind, Expr.binary, hs, hs', hshape]
    rfl
  · obtain ⟨v, hv, hgv⟩ := NodalFunction.nodeValue?_of_zipWith (f := f) (g := g) rfl
      (congrArg FunctionSpace.whole hspace.symm) rfl (hvalues n hn) (hvalues' n hn)
    rw [hc n hn] at hv
    cases hv
    exact hgv

/-- The negative of an expression has its components times minus one. -/
theorem neg [Neg α] (h : HasValues x V s a) :
    HasValues (x >>= Expr.neg) V s fun n => (a n).map fun z => -1 * z := by
  obtain ⟨e, f, rfl, hs, he, hnext, hshape, hvalues⟩ := h
  obtain ⟨g, hg, hspace, hcoefficients⟩ := evaluate_neg he
  refine ⟨_, g, rfl, hs, hg, hspace ▸ hnext, ?_, fun n hn => ?_⟩
  · rw [← hshape, NodalFunction.valueShape, NodalFunction.valueShape, hspace]
  · exact NodalFunction.nodeValue?_of_map hspace hcoefficients (hvalues n hn)

/-! ## Square matrices -/

section

variable {n : Nat} {A : Nat → DenseMatrix n n α}

/-- A function of matrices has a matrix at every node. -/
theorem exists_matrix {u : NodalFunction α} {sub : ScalarElement} {p q : Nat}
    (hu : u.space.whole = .tensor sub p q) :
    ∃ A : Nat → DenseMatrix p q α,
      HasValues (.ok (.function u)) u.space (.matrix p q) fun k => .matrix (A k) := by
  have hshape : u.valueShape = .matrix p q := by
    rw [u.valueShape_eq_whole, hu]
    rfl
  have hvalues : ∀ k, ∃ A : DenseMatrix p q α,
      k < u.space.nodeCount → u.nodeValue? k = some (.matrix A) := by
    intro k
    by_cases hk : k < u.space.nodeCount
    · obtain ⟨A, hA⟩ := NodalFunction.exists_matrix hshape hk
      exact ⟨A, fun _ => hA⟩
    · exact ⟨.ofFn fun _ _ => 0, fun hk' => absurd hk' hk⟩
  obtain ⟨A, hA⟩ := Classical.axiomOfChoice hvalues
  exact ⟨A, hshape ▸ function hA⟩

/-- An operation that takes a square matrix to a matrix of its size. -/
theorem square {f : DenseMatrix n n α → DenseMatrix n n α}
    (h : HasValues x V (.matrix n n) fun k => .matrix (A k))
    (hselect : Rules.standard.select op 1 = .ok (.tensor kernel))
    (hshape : op.unaryShape (.matrix n n) = .ok (.matrix n n))
    (hkernel : ∀ A, kernel [.matrix A] = .ok (.matrix (f A))) :
    HasValues (x >>= Expr.unary op) V (.matrix n n) fun k => .matrix (f (A k)) :=
  h.unary hselect hshape (Nat.le_refl 2) (Nat.le_refl _) fun _ _ => ⟨hkernel _, rfl⟩

/-- An operation that takes a square matrix to a number. -/
theorem invariant {f : DenseMatrix n n α → α}
    (h : HasValues x V (.matrix n n) fun k => .matrix (A k))
    (hselect : Rules.standard.select op 1 = .ok (.tensor kernel))
    (hshape : op.unaryShape (.matrix n n) = .ok .scalar)
    (hkernel : ∀ A, kernel [.matrix A] = .ok (.scalar (f A))) :
    HasValues (x >>= Expr.unary op) V .scalar fun k => .scalar (f (A k)) :=
  h.unary hselect hshape (Nat.zero_le 2) h.componentCount_pos fun _ _ => ⟨hkernel _, rfl⟩

theorem transposed (h : HasValues x V (.matrix n n) fun k => .matrix (A k)) :
    HasValues (x >>= Expr.unary .transposed) V (.matrix n n) fun k => .matrix (A k).transpose :=
  h.square rfl rfl TensorKernel.transpose_matrix

end

end HasValues

end NodalAlgebra
