import Mathlib.Algebra.CharZero.Defs
import Mathlib.Tactic.Ring
import NodalAlgebra.Proofs.ConstructedValues
import NodalAlgebra.Proofs.MatrixAlgebra
import NodalAlgebra.Proofs.Nodewise
import NodalAlgebra.Scalar.Real

/-!
# Parts of matrices

The symmetric, the skew and the deviatoric part of a square matrix. Over exact scalars in
which numbers of rows can be divided by, the first two add up to the matrix, each part is
its own part of its kind, and the skew and the deviatoric part have no trace. These laws
hold of expressions as well, whose operations build a space each and come back to that of
their operands (`evaluate_parts`).
-/

namespace NodalAlgebra

variable {α : Type} {n : Nat}

/-! ## Matrices -/

namespace DenseMatrix

section

variable [One α] [Add α] [Mul α] [Div α]

/-- Half of the sum of a matrix and its transpose. -/
def symPart (A : DenseMatrix n n α) : DenseMatrix n n α := (A.add A.transpose).scale (1 / (1 + 1))

/-- Half of the difference of a matrix and its transpose. -/
def skewPart [Sub α] (A : DenseMatrix n n α) : DenseMatrix n n α :=
  (A.sub A.transpose).scale (1 / (1 + 1))

/-- A matrix without the mean of its diagonal. -/
def deviatoricPart [Zero α] [Sub α] [NatCast α] (A : DenseMatrix n n α) : DenseMatrix n n α :=
  A.sub ((identity n).scale (A.trace / (n : α)))

/-- The matrix without entries other than zero. -/
def zeros [Zero α] (n : Nat) : DenseMatrix n n α := ofFn fun _ _ => 0

theorem get_symPart (A : DenseMatrix n n α) (i j : Fin n) :
    A.symPart.get i j = (A.get i j + A.get j i) * (1 / (1 + 1)) := by
  simp [symPart]

theorem get_skewPart [Sub α] (A : DenseMatrix n n α) (i j : Fin n) :
    A.skewPart.get i j = (A.get i j - A.get j i) * (1 / (1 + 1)) := by
  simp [skewPart]

theorem get_deviatoricPart [Zero α] [Sub α] [NatCast α] (A : DenseMatrix n n α) (i j : Fin n) :
    A.deviatoricPart.get i j
      = A.get i j - (if i = j then 1 else 0) * (A.trace / (n : α)) := by
  simp [deviatoricPart]

end

section

variable [Field α]

theorem trace_eq_sum (A : DenseMatrix n n α) : A.trace = ∑ i, A.get i i := by
  rw [trace_eq]
  rfl

theorem trace_transpose (A : DenseMatrix n n α) : A.transpose.trace = A.trace := by
  simp only [trace_eq_sum, get_transpose]

theorem transpose_symPart (A : DenseMatrix n n α) : A.symPart.transpose = A.symPart := by
  refine ext_get fun i j => ?_
  rw [get_transpose, get_symPart, get_symPart, add_comm]

theorem neg_transpose_skewPart (A : DenseMatrix n n α) :
    (ofFn fun i j => -1 * A.skewPart.transpose.get i j) = A.skewPart := by
  refine ext_get fun i j => ?_
  rw [get_ofFn, get_transpose, get_skewPart, get_skewPart]
  ring

theorem deviatoricPart_transpose (A : DenseMatrix n n α) :
    A.transpose.deviatoricPart = A.deviatoricPart.transpose := by
  refine ext_get fun i j => ?_
  rw [get_transpose, get_deviatoricPart, get_deviatoricPart, get_transpose, trace_transpose]
  simp only [eq_comm]

theorem trace_skewPart (A : DenseMatrix n n α) : A.skewPart.trace = 0 := by
  rw [trace_eq_sum]
  refine Finset.sum_eq_zero fun i _ => ?_
  rw [get_skewPart, sub_self, zero_mul]

variable [CharZero α]

theorem symPart_add_skewPart (A : DenseMatrix n n α) : A.symPart.add A.skewPart = A := by
  refine ext_get fun i j => ?_
  rw [get_add, get_symPart, get_skewPart]
  ring

theorem symPart_symPart (A : DenseMatrix n n α) : A.symPart.symPart = A.symPart := by
  refine ext_get fun i j => ?_
  simp only [get_symPart]
  ring

theorem skewPart_skewPart (A : DenseMatrix n n α) : A.skewPart.skewPart = A.skewPart := by
  refine ext_get fun i j => ?_
  simp only [get_skewPart]
  ring

theorem symPart_skewPart (A : DenseMatrix n n α) : A.skewPart.symPart = zeros n := by
  refine ext_get fun i j => ?_
  rw [get_symPart, get_skewPart, get_skewPart, zeros, get_ofFn]
  ring

theorem trace_symPart (A : DenseMatrix n n α) : A.symPart.trace = A.trace := by
  rw [trace_eq_sum, trace_eq_sum]
  refine Finset.sum_congr rfl fun i _ => ?_
  rw [get_symPart]
  ring

/-- The mean is taken from each of the `n` entries of the diagonal. -/
theorem trace_deviatoricPart (hn : n ≠ 0) (A : DenseMatrix n n α) :
    A.deviatoricPart.trace = 0 := by
  have hn' : (n : α) ≠ 0 := Nat.cast_ne_zero.2 hn
  have hdiagonal : ∀ i, A.deviatoricPart.get i i = A.get i i - A.trace / n := by
    intro i
    rw [get_deviatoricPart, if_pos rfl, one_mul]
  rw [trace_eq_sum]
  simp only [hdiagonal]
  rw [Finset.sum_sub_distrib, ← trace_eq_sum, Finset.sum_const, Finset.card_univ,
    Fintype.card_fin, nsmul_eq_mul, mul_div_cancel₀ _ hn', sub_self]

theorem deviatoricPart_deviatoricPart (hn : n ≠ 0) (A : DenseMatrix n n α) :
    A.deviatoricPart.deviatoricPart = A.deviatoricPart := by
  refine ext_get fun i j => ?_
  rw [get_deviatoricPart, trace_deviatoricPart hn, zero_div, mul_zero, sub_zero]

theorem deviatoricPart_symPart (A : DenseMatrix n n α) :
    A.symPart.deviatoricPart = A.deviatoricPart.symPart := by
  refine ext_get fun i j => ?_
  have hswap : (if j = i then (1 : α) else 0) = if i = j then 1 else 0 := by
    simp only [eq_comm]
  rw [get_deviatoricPart, get_symPart, get_symPart, get_deviatoricPart, get_deviatoricPart,
    trace_symPart, hswap]
  ring

end

end DenseMatrix

/-! ## Functions of matrices -/

/-- A matrix is combined with another one entry by entry. -/
theorem TensorValue.zipWith?_matrix {m p : Nat} {φ : α → α → α} {A B C : DenseMatrix m p α}
    (h : ∀ i j, C.get i j = φ (A.get i j) (B.get i j)) :
    zipWith? φ (.matrix A) (.matrix B) = some (.matrix C) := by
  refine zipWith?_eq_some.2 ⟨rfl, rfl, ?_⟩
  apply Array.ext
  · simp [components]
  · intro k hk _
    have hk' : k < m * p := by simpa [components] using hk
    have hentry := h ⟨k / p, DenseMatrix.row_lt hk'⟩ ⟨k % p, DenseMatrix.col_lt hk'⟩
    rw [← DenseMatrix.entries_getElem, ← DenseMatrix.entries_getElem,
      ← DenseMatrix.entries_getElem] at hentry
    simpa [components] using hentry

theorem TensorValue.map_matrix {m p : Nat} (φ : α → α) (A : DenseMatrix m p α) :
    (matrix A).map φ = .matrix (.ofFn fun i j => φ (A.get i j)) := by
  refine congrArg matrix (DenseMatrix.ext_get fun i j => ?_)
  rw [DenseMatrix.get_ofFn]
  simp [DenseMatrix.get]

section

variable [Field α] [Elementary α] [LinearSolver α]

namespace HasValues

variable {x : Except ShapeError (Expr α)} {V : FunctionSpace α} {A : Nat → DenseMatrix n n α}

theorem sym (h : HasValues x V (.matrix n n) fun k => .matrix (A k)) :
    HasValues (x >>= Expr.unary .sym) V (.matrix n n) fun k => .matrix (A k).symPart :=
  h.square rfl (if_pos (Shape.isSquare_matrix n)) fun A => TensorKernel.ofSquare_matrix _ A

theorem skew (h : HasValues x V (.matrix n n) fun k => .matrix (A k)) :
    HasValues (x >>= Expr.unary .skew) V (.matrix n n) fun k => .matrix (A k).skewPart :=
  h.square rfl (if_pos (Shape.isSquare_matrix n)) fun A => TensorKernel.ofSquare_matrix _ A

theorem deviatoric (h : HasValues x V (.matrix n n) fun k => .matrix (A k)) :
    HasValues (x >>= Expr.unary .deviatoric) V (.matrix n n)
      fun k => .matrix (A k).deviatoricPart :=
  h.square rfl (if_pos (Shape.isSquare_matrix n)) fun A => TensorKernel.ofSquare_matrix _ A

theorem trace (h : HasValues x V (.matrix n n) fun k => .matrix (A k)) :
    HasValues (x >>= Expr.unary .trace) V .scalar fun k => .scalar (A k).trace :=
  h.invariant rfl (if_pos (Shape.isSquare_matrix n)) fun A => TensorKernel.ofInvariant_matrix _ A

end HasValues

variable [CharZero α]

/-- The parts of a function of square matrices, as they are evaluated. The symmetric and the
skew part add up to the function, in a space compatible with its own and with its
coefficients. The symmetric part is its transpose, and the skew part is the negative of its
transpose. The deviatoric and the skew part have trace zero at every node, and the symmetric
part has the trace of the function. Each part has itself as its part of the same kind, and
the symmetric part of the skew part is zero. The deviatoric part of the transpose is the
transpose of the deviatoric part, and that of the symmetric part is the symmetric part of the
deviatoric part. -/
theorem evaluate_parts {u : NodalFunction α} {sub : ScalarElement}
    (hu : u.space.whole = .tensor sub n n) :
    let U : Expr α := .function u
    SameFunction (do Expr.binary .sum (← Expr.unary .sym U) (← Expr.unary .skew U)) (.ok U)
    ∧ SameFunction (Expr.unary .sym U >>= Expr.unary .transposed) (Expr.unary .sym U)
    ∧ SameFunction (Expr.unary .skew U >>= Expr.unary .transposed >>= Expr.neg)
        (Expr.unary .skew U)
    ∧ HasValues (Expr.unary .deviatoric U >>= Expr.unary .trace) u.space .scalar
        (fun _ => .scalar 0)
    ∧ HasValues (Expr.unary .skew U >>= Expr.unary .trace) u.space .scalar (fun _ => .scalar 0)
    ∧ SameFunction (Expr.unary .sym U >>= Expr.unary .trace) (Expr.unary .trace U)
    ∧ SameFunction (Expr.unary .sym U >>= Expr.unary .sym) (Expr.unary .sym U)
    ∧ SameFunction (Expr.unary .skew U >>= Expr.unary .skew) (Expr.unary .skew U)
    ∧ SameFunction (Expr.unary .deviatoric U >>= Expr.unary .deviatoric)
        (Expr.unary .deviatoric U)
    ∧ HasValues (Expr.unary .skew U >>= Expr.unary .sym) u.space (.matrix n n)
        (fun _ => .matrix (DenseMatrix.zeros n))
    ∧ SameFunction (Expr.unary .transposed U >>= Expr.unary .deviatoric)
        (Expr.unary .deviatoric U >>= Expr.unary .transposed)
    ∧ SameFunction (Expr.unary .sym U >>= Expr.unary .deviatoric)
        (Expr.unary .deviatoric U >>= Expr.unary .sym) := by
  intro U
  obtain ⟨A, h⟩ := HasValues.exists_matrix hu
  have hn : n ≠ 0 := by
    have hpos := h.componentCount_pos
    rintro rfl
    exact absurd hpos (by decide)
  refine ⟨?_, ?_, ?_, ?_, ?_, ?_, ?_, ?_, ?_, ?_, ?_, ?_⟩
  · have hsum := h.sym.pointwise .sum h.skew rfl (if_pos rfl) fun k _ =>
      TensorValue.zipWith?_matrix (C := A k) fun i j => by
        rw [← DenseMatrix.get_add, DenseMatrix.symPart_add_skewPart]
    exact hsum.sameFunction h fun _ _ => rfl
  · exact h.sym.transposed.sameFunction h.sym fun k _ => by rw [DenseMatrix.transpose_symPart]
  · refine h.skew.transposed.neg.sameFunction h.skew fun k _ => ?_
    rw [TensorValue.map_matrix, DenseMatrix.neg_transpose_skewPart]
  · exact h.deviatoric.trace.congr fun k _ => by rw [DenseMatrix.trace_deviatoricPart hn]
  · exact h.skew.trace.congr fun k _ => by rw [DenseMatrix.trace_skewPart]
  · exact h.sym.trace.sameFunction h.trace fun k _ => by rw [DenseMatrix.trace_symPart]
  · exact h.sym.sym.sameFunction h.sym fun k _ => by rw [DenseMatrix.symPart_symPart]
  · exact h.skew.skew.sameFunction h.skew fun k _ => by rw [DenseMatrix.skewPart_skewPart]
  · exact h.deviatoric.deviatoric.sameFunction h.deviatoric fun k _ => by
      rw [DenseMatrix.deviatoricPart_deviatoricPart hn]
  · exact h.skew.sym.congr fun k _ => by rw [DenseMatrix.symPart_skewPart]
  · exact h.transposed.deviatoric.sameFunction h.deviatoric.transposed fun k _ => by
      rw [DenseMatrix.deviatoricPart_transpose]
  · exact h.sym.deviatoric.sameFunction h.deviatoric.sym fun k _ => by
      rw [DenseMatrix.deviatoricPart_symPart]

end

/-- Real matrices that are not symmetric, on a segment: their parts add up to them, and what
is left of the second one without its mean has no trace. -/
theorem evaluate_parts_segment :
    let u : NodalFunction ℝ := segmentFunction 0 1 #[1, 2, 3, 4, 5, 6, 7, 9] rfl
    let U : Expr ℝ := .function u
    (∃ e f, (do Expr.binary .sum (← Expr.unary .sym U) (← Expr.unary .skew U)) = .ok e
      ∧ evaluate Rules.standard e = .ok (.function f)
      ∧ f.coefficients = #[1, 2, 3, 4, 5, 6, 7, 9])
    ∧ ∃ e g, (Expr.unary .deviatoric U >>= Expr.unary .trace) = .ok e
      ∧ evaluate Rules.standard e = .ok (.function g) ∧ g.nodeValue? 1 = some (.scalar 0) := by
  intro u U
  obtain ⟨hsum, -, -, htrace, -⟩ := evaluate_parts (u := u) rfl
  obtain ⟨e, e', f, f', he, he', hf, hf', -, hcoefficients, -⟩ := hsum
  obtain ⟨d, g, hd, -, hg, -, -, hvalues⟩ := htrace
  cases he'
  cases hf'
  exact ⟨⟨e, f, he, hf, hcoefficients⟩, d, g, hd, hg, hvalues 1 (show 1 < 2 by decide)⟩

end NodalAlgebra
