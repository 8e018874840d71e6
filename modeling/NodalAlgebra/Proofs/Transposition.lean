import NodalAlgebra.Expr.Build
import NodalAlgebra.Proofs.NodeFilling
import NodalAlgebra.Proofs.NodeOutcomes
import NodalAlgebra.Proofs.ShapeInference

/-!
# Transposed functions

The transpose of a function of matrices lives in the space of the matrices with rows and
columns exchanged, next to the space of the function, and has the transposed matrix at every
node (`exists_evaluate_transposed`). Transposing once more leads back to the space of the
function. There the values are those of the function, and functions with the same values
have the same coefficients (`NodalFunction.coefficients_eq_of_values`).
-/

namespace NodalAlgebra

variable {α : Type}

/-! ## Values and coefficients -/

namespace NodalFunction

variable {f : NodalFunction α}

/-- The coefficients of a function of matrices are the entries, row by row and node by
node. -/
theorem coefficient_of_matrix {r c n : Nat} {A : DenseMatrix r c α}
    (h : f.nodeValue? n = some (.matrix A)) (i : Fin r) (j : Fin c) :
    f.coefficients[(n * r + i) * c + j]? = some (A.get i j) := by
  obtain ⟨-, hshape, hblock⟩ := nodeValue?_eq_some_iff_block.1 h
  have hstride : f.space.stride = r * c := by
    rw [f.stride_eq_componentCount, ← hshape]
    simp [TensorValue.shape, Shape.matrix, Shape.componentCount]
  have hk : i.val * c + j.val < r * c := DenseMatrix.index_lt i.isLt j.isLt
  have hplace : (n * r + i) * c + j = i.val * c + j.val + n * (r * c) := by
    rw [Nat.add_mul, Nat.mul_assoc]
    omega
  have hdiv : (i.val * c + j.val + n * (r * c)) / (r * c) = n := by
    rw [Nat.add_mul_div_right _ _ (by omega), Nat.div_eq_of_lt hk, Nat.zero_add]
  have hmod : (i.val * c + j.val + n * (r * c)) % (r * c) = i.val * c + j.val := by
    rw [Nat.add_mul_mod_self_right, Nat.mod_eq_of_lt hk]
  rw [getElem?_coefficients, hplace, hstride, hdiv, hmod, ← hblock]
  simp [TensorValue.components, DenseMatrix.get, hk]

end NodalFunction

/-! ## Spaces of matrices -/

theorem FunctionSpace.NextTo.whole_eq {V W : FunctionSpace α} (h : W.NextTo V)
    (hshape : W.whole.valueShape = V.whole.valueShape) : W.whole = V.whole := by
  have hW := FiniteElement.ofShape?_eq_some.2 ⟨h.scalarElement_eq, hshape⟩
  have hV := FiniteElement.ofShape?_eq_some.2 ⟨rfl, (rfl : V.whole.valueShape = _)⟩
  exact Option.some.inj (hW.symm.trans hV)

/-- A value of a function of matrices is a matrix. -/
theorem NodalFunction.exists_matrix {f : NodalFunction α} {r c n : Nat}
    (hshape : f.valueShape = .matrix r c) (hn : n < f.space.nodeCount) :
    ∃ A : DenseMatrix r c α, f.nodeValue? n = some (.matrix A) := by
  obtain ⟨a, ha⟩ := f.exists_nodeValue? hn
  have hvalue := (nodeValue?_eq_some_iff_block.1 ha).2.1.trans hshape
  cases a with
  | scalar x => cases hvalue
  | vector v => cases hvalue
  | matrix A =>
      cases hvalue
      exact ⟨A, ha⟩

theorem TensorKernel.transpose_matrix {r c : Nat} (A : DenseMatrix r c α) :
    transpose [.matrix A] = .ok (.matrix A.transpose) := rfl

/-! ## Transposing functions -/

section

variable [Zero α] {R : Rules α}

/-- The transpose of a function of matrices is the function of the transposed matrices. -/
theorem exists_evaluate_transposed {e : Expr α} {u : NodalFunction α} {r c : Nat}
    (hselect : R.select .transposed 1 = .ok (.tensor .transpose))
    (he : evaluate R e = .ok (.function u)) (hshape : u.valueShape = .matrix r c) :
    ∃ f, evaluate R (.operation .transposed [e] (.matrix c r)) = .ok (.function f)
      ∧ f.space.NextTo u.space ∧ f.valueShape = .matrix c r
      ∧ ∀ (n : Nat) (A : DenseMatrix r c α), u.nodeValue? n = some (.matrix A) →
        f.nodeValue? n = some (.matrix A.transpose) := by
  have hfits : (Shape.matrix r c).Fits u.space.nodeCount := by
    rw [← hshape, u.valueShape_eq_whole]
    exact u.space.fits
  have hpos : (Shape.matrix c r).Positive := by
    have hu : (Shape.matrix r c).Positive := hshape ▸ (Value.function u).positive_shape
    have hshape' : Operator.transposed.unaryShape (.matrix r c) = .ok (.matrix c r) := rfl
    exact Operator.unaryShape_positive hshape' hu
  have hrank : (Shape.matrix c r).rank ≤ 2 := Nat.le_refl 2
  have hcount : (Shape.matrix c r).componentCount = (Shape.matrix r c).componentCount := by
    simp [Shape.componentCount, Shape.matrix, Nat.mul_comm]
  have hanswers : ∀ n a, u.nodeValue? n = some a →
      TensorKernel.transpose.Answers (.matrix c r) [a] := by
    intro n a ha
    obtain ⟨A, hA⟩ := NodalFunction.exists_matrix hshape (NodalFunction.nodeValue?_eq_some.1 ha).1
    rw [ha] at hA
    cases hA
    exact ⟨_, TensorKernel.transpose_matrix A, rfl⟩
  obtain ⟨f, hf, hnext, hshape', hvalues⟩ := exists_evaluate_unary hselect he hrank hpos
    (hpos.fits_of_le hfits (Nat.le_of_eq hcount)) hanswers
  refine ⟨f, hf, hnext, hshape', fun n A hA => ?_⟩
  obtain ⟨b, hb, hfb⟩ := hvalues n _ hA
  cases hb
  exact hfb

end

section

variable [Zero α] [One α] [Add α] [Sub α] [Mul α] [Div α] [NatCast α] [Elementary α]
  [LinearSolver α]

/-- A function of matrices, of whatever numbers of rows and columns, can be transposed. The
transpose lives on the mesh of the function and for its scalar element, and entry `(j, i)`
of its value at a node is entry `(i, j)` of the function's value there. The transpose of
the transpose lives in a space compatible with that of the function and has the function's
coefficients. -/
theorem evaluate_transposed_twice {u : NodalFunction α} {sub : ScalarElement} {r c : Nat}
    (hu : u.space.whole = .tensor sub r c) :
    ∃ e f e' g, Expr.unary .transposed (.function u) = .ok e
      ∧ evaluate Rules.standard e = .ok (.function f)
      ∧ f.space.whole = .tensor sub c r ∧ f.space.mesh = u.space.mesh
      ∧ (∀ n < u.space.nodeCount, ∃ (A : DenseMatrix r c α) (B : DenseMatrix c r α),
        u.nodeValue? n = some (.matrix A) ∧ f.nodeValue? n = some (.matrix B)
          ∧ ∀ i j, B.get j i = A.get i j
            ∧ f.coefficients[(n * c + j) * r + i]? = u.coefficients[(n * r + i) * c + j]?)
      ∧ Expr.unary .transposed e = .ok e' ∧ evaluate Rules.standard e' = .ok (.function g)
      ∧ u.space.isCompatible g.space = true ∧ g.coefficients = u.coefficients := by
  have hshape : u.valueShape = .matrix r c := by
    rw [u.valueShape_eq_whole, hu]
    rfl
  obtain ⟨f, hf, hnext, hshapef, hvaluesf⟩ :=
    exists_evaluate_transposed (R := Rules.standard) rfl (rfl : evaluate _ (.function u) = _) hshape
  obtain ⟨g, hg, hnextg, hshapeg, hvaluesg⟩ := exists_evaluate_transposed rfl hf hshapef
  refine ⟨.operation .transposed [.function u] (.matrix c r), f,
    .operation .transposed [.operation .transposed [.function u] (.matrix c r)] (.matrix r c), g,
    ?_, hf, ?_, hnext.mesh_eq, ?_, rfl, hg, ?_, ?_⟩
  · show (do
      let s ← Operator.unaryShape .transposed u.valueShape
      return Expr.operation .transposed [.function u] s) = _
    rw [hshape]
    rfl
  · have hwhole : FiniteElement.ofShape? sub (.matrix c r) = some f.space.whole := by
      refine FiniteElement.ofShape?_eq_some.2 ⟨?_, by rw [← f.valueShape_eq_whole, hshapef]⟩
      rw [hnext.scalarElement_eq, hu]
      rfl
    exact (Option.some.inj hwhole).symm
  · intro n hn
    obtain ⟨A, hA⟩ := NodalFunction.exists_matrix hshape hn
    have hB := hvaluesf n A hA
    refine ⟨A, A.transpose, hA, hB, fun i j => ⟨A.get_transpose j i, ?_⟩⟩
    rw [NodalFunction.coefficient_of_matrix hA, NodalFunction.coefficient_of_matrix hB,
      A.get_transpose]
  · have hwhole : g.space.whole = u.space.whole := (hnextg.trans hnext).whole_eq (by
      rw [← g.valueShape_eq_whole, hshapeg, ← u.valueShape_eq_whole, hshape])
    have hmesh : g.space.mesh = u.space.mesh := (hnextg.trans hnext).mesh_eq
    rw [FunctionSpace.isCompatible_iff u.whole g.whole, hwhole, hmesh]
    exact ⟨rfl, rfl⟩
  · refine NodalFunction.coefficients_eq_of_values (hnextg.trans hnext).nodeCount_eq
      (hshapeg.trans hshape.symm) fun n hn => ?_
    rw [(hnextg.trans hnext).nodeCount_eq] at hn
    obtain ⟨A, hA⟩ := NodalFunction.exists_matrix hshape hn
    rw [hvaluesg n _ (hvaluesf n A hA), A.transpose_transpose, hA]

end

/-- Matrices with two rows and three columns at the ends of a segment. -/
def segmentWide (a b : α) : FunctionSpace α where
  mesh := segment a b
  whole := .tensor ⟨.lagrange, 1, .interval⟩ 2 3
  component := none
  placement := .vertices
  cell_eq := rfl
  placement_eq := rfl
  counted := rfl
  components_pos := by decide
  components_le := by decide
  dim_lt := show 2 * 6 < Size.limit by decide
  component_lt := by simp

/-- Two matrices with fewer rows than columns: the second coefficient of the transpose stands
below the first one in the function, and its last but one is the end of a row. -/
theorem evaluate_transposed_twice_segment :
    let u : NodalFunction Float :=
      ⟨segmentWide 0 1, #[1, 2, 3, 4, 5, 6, 7, 8, 9, 10, 11, 12], none, rfl, rfl⟩
    ∃ e f e' g, Expr.unary .transposed (.function u) = .ok e
      ∧ evaluate Rules.standard e = .ok (.function f)
      ∧ f.coefficients[1]? = some 4 ∧ f.coefficients[10]? = some 9
      ∧ Expr.unary .transposed e = .ok e' ∧ evaluate Rules.standard e' = .ok (.function g)
      ∧ g.coefficients = #[1, 2, 3, 4, 5, 6, 7, 8, 9, 10, 11, 12] := by
  intro u
  obtain ⟨e, f, e', g, he, hf, -, -, hvalues, he', hg, -, hcoefficients⟩ :=
    evaluate_transposed_twice (u := u) rfl
  refine ⟨e, f, e', g, he, hf, ?_, ?_, he', hg, hcoefficients⟩
  · obtain ⟨_, _, -, -, hentry⟩ := hvalues 0 (by decide)
    exact (hentry 1 0).2
  · obtain ⟨_, _, -, -, hentry⟩ := hvalues 1 (by decide)
    exact (hentry 0 2).2

end NodalAlgebra
