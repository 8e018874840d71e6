import Mathlib.LinearAlgebra.CrossProduct
import Mathlib.LinearAlgebra.Matrix.Trace
import Mathlib.Tactic.Abel
import NodalAlgebra.Dense.Product

/-!
# Products over exact scalars

Where addition is associative and commutative, the order in which a product adds its terms
does not matter: the eight lanes and what is left behind them (`blockSum_eq`), a sum in
which each term is put in front (`frontSum_eq`) and one in the order of the terms
(`orderedSum_eq`) are the sum of the terms. So the products of vectors and matrices are
those of linear algebra (`DenseMatrix.toMatrix_mul` and the lemmas beside it). In whatever
arithmetic, a matrix times a vector is what a loop over the columns ends with
(`DenseMatrix.mulVec_eq_mulVecByColumns`).
-/

namespace NodalAlgebra

variable {α : Type}

/-! ## Sums -/

section

variable [AddCommMonoid α]

theorem foldl_add_eq (terms : List α) (total : α) :
    terms.foldl (· + ·) total = total + terms.sum := by
  induction terms generalizing total with
  | nil => simp
  | cons x terms ih => rw [List.foldl_cons, ih, List.sum_cons, add_assoc]

namespace Lanes

/-- The sum of the lanes. -/
def total (s : Lanes α) : α :=
  s.s0 + s.s1 + s.s2 + s.s3 + s.s4 + s.s5 + s.s6 + s.s7

theorem total_zero : (zero : Lanes α).total = 0 := by
  simp [zero, total]

/-- The pairs of lanes hold all of them. -/
theorem addTo_eq (s : Lanes α) (t : α) : s.addTo t = t + s.total := by
  simp only [addTo, total]
  abel

/-- A round moves eight terms into the lanes, so that the lanes and the terms left always
have the same sum. -/
theorem total_addBlocks (s : Lanes α) (terms : List α) :
    (s.addBlocks terms).1.total + (s.addBlocks terms).2.sum = s.total + terms.sum := by
  fun_induction addBlocks s terms with
  | case1 s a b c d e f g h rest ih =>
      rw [ih]
      simp only [total, List.sum_cons]
      abel
  | case2 s rest _ => rfl

end Lanes

theorem blockSum_eq (t : α) (terms : List α) : blockSum t terms = t + terms.sum := by
  have hblocks := Lanes.total_addBlocks Lanes.zero terms
  rw [Lanes.total_zero, zero_add] at hblocks
  calc blockSum t terms
      = (Lanes.zero.addBlocks terms).1.addTo t + (Lanes.zero.addBlocks terms).2.sum :=
        foldl_add_eq _ _
    _ = t + ((Lanes.zero.addBlocks terms).1.total + (Lanes.zero.addBlocks terms).2.sum) := by
        rw [Lanes.addTo_eq, add_assoc]
    _ = t + terms.sum := by rw [hblocks]

theorem frontSum_eq (terms : List α) : frontSum terms = terms.sum := by
  cases terms with
  | nil => rfl
  | cons first rest =>
      have hflip : (fun sum term : α => term + sum) = (· + ·) := by
        funext sum term
        exact add_comm term sum
      rw [frontSum, hflip, foldl_add_eq, List.sum_cons]

theorem orderedSum_eq (terms : List α) : orderedSum terms = terms.sum := by
  rw [orderedSum, foldl_add_eq, zero_add]

end

namespace DenseMatrix

variable {m n p : Nat}

/-! ## Columns -/

section

variable [Add α] [Mul α]

/-- A multiple of column `j` put in front of a running sum. -/
def addColumn (a : DenseMatrix m n α) (v : Vector α n) (y : Vector α m) (j : Fin n) :
    Vector α m :=
  Vector.ofFn fun i => a.get i j * v.get j + y.get i

theorem get_foldl_addColumn (a : DenseMatrix m n α) (v : Vector α n) (columns : List (Fin n))
    (y : Vector α m) (i : Fin m) :
    (columns.foldl (a.addColumn v) y).get i
      = columns.foldl (fun sum j => a.get i j * v.get j + sum) (y.get i) := by
  induction columns generalizing y with
  | nil => rfl
  | cons j columns ih => rw [List.foldl_cons, List.foldl_cons, ih, addColumn, vector_get_ofFn]

variable [Zero α]

/-- A matrix times a vector as a loop over the columns, which begins with the multiple of
the first one. Without columns there are zeros. -/
def mulVecByColumns (a : DenseMatrix m n α) (v : Vector α n) : Vector α m :=
  match List.finRange n with
  | [] => Vector.replicate m 0
  | first :: rest =>
      rest.foldl (a.addColumn v) (Vector.ofFn fun i => a.get i first * v.get first)

/-- The loop over the columns builds up all entries at once, each of them term by term. -/
theorem mulVec_eq_mulVecByColumns (a : DenseMatrix m n α) (v : Vector α n) :
    a.mulVec v = a.mulVecByColumns v := by
  apply Vector.ext
  intro i hi
  show (a.mulVec v).get ⟨i, hi⟩ = (a.mulVecByColumns v).get ⟨i, hi⟩
  rw [mulVec, vector_get_ofFn, termwise, mulVecByColumns]
  cases List.finRange n with
  | nil => simp [frontSum, vector_get]
  | cons first rest =>
      have hentry : ∀ j, (a.row ⟨i, hi⟩).get j = a.get ⟨i, hi⟩ j := by
        intro j
        rw [row, vector_get_ofFn]
      simp only [List.map_cons, frontSum, List.foldl_map, hentry, get_foldl_addColumn,
        vector_get_ofFn]

/-- Unless all numbers are large, a product consists of the first matrix times each column
of the second one. -/
theorem col_mul_of_small (a : DenseMatrix m n α) (b : DenseMatrix n p α) (k : Fin p)
    (hsmall : ¬ (smallSize < m ∧ smallSize < n ∧ smallSize < p)) :
    (a.mul b).col k = a.mulVec (b.col k) := by
  rw [col, mulVec]
  congr 1
  funext i
  rw [mul, get_ofFn, entrySum, if_neg hsmall]

end

/-! ## Matrices of linear algebra -/

/-- A matrix as a function of row and column. -/
def toMatrix (a : DenseMatrix m n α) : Matrix (Fin m) (Fin n) α := Matrix.of a.get

@[simp] theorem toMatrix_apply (a : DenseMatrix m n α) (i : Fin m) (j : Fin n) :
    a.toMatrix i j = a.get i j := rfl

theorem toMatrix_inj {a b : DenseMatrix m n α} : a.toMatrix = b.toMatrix ↔ a = b := by
  constructor
  · intro h
    exact ext_get fun i j => congrFun (congrFun h i) j
  · intro h
    rw [h]

@[simp] theorem toMatrix_transpose (a : DenseMatrix m n α) :
    a.transpose.toMatrix = a.toMatrix.transpose := by
  funext i j
  exact a.get_transpose i j

/-- Vectors with equal entries are equal. -/
theorem vector_get_inj {u v : Vector α n} : u.get = v.get ↔ u = v := by
  constructor
  · intro h
    apply Vector.ext
    intro i hi
    exact congrFun h ⟨i, hi⟩
  · intro h
    rw [h]

theorem get_row (a : DenseMatrix m n α) (i : Fin m) : (a.row i).get = a.toMatrix i := by
  funext j
  exact vector_get_ofFn _ j

theorem get_col (a : DenseMatrix m n α) (j : Fin n) : (a.col j).get = a.toMatrix.transpose j := by
  funext i
  exact vector_get_ofFn _ i

section

variable [CommRing α]

theorem sum_termwise (u v : Vector α n) : (termwise u v).sum = u.get ⬝ᵥ v.get :=
  (Fin.sum_univ_def _).symm

theorem dot_eq (u v : Vector α n) : dot u v = u.get ⬝ᵥ v.get := by
  rw [dot, blockSum_eq, zero_add, sum_termwise]

theorem get_mulVec (a : DenseMatrix m n α) (v : Vector α n) :
    (a.mulVec v).get = a.toMatrix.mulVec v.get := by
  funext i
  rw [mulVec, vector_get_ofFn, frontSum_eq, sum_termwise, get_row]
  rfl

theorem get_vecMul (u : Vector α m) (b : DenseMatrix m n α) :
    (vecMul u b).get = Matrix.vecMul u.get b.toMatrix := by
  funext j
  rw [vecMul, vector_get_ofFn, dot_eq, get_col, dotProduct_comm]
  rfl

theorem toMatrix_mul (a : DenseMatrix m n α) (b : DenseMatrix n p α) :
    (a.mul b).toMatrix = a.toMatrix * b.toMatrix := by
  funext i k
  have hsum : entrySum m n p (termwise (a.row i) (b.col k))
      = (termwise (a.row i) (b.col k)).sum := by
    unfold entrySum
    split
    · exact orderedSum_eq _
    · exact frontSum_eq _
  rw [toMatrix_apply, mul, get_ofFn, hsum, sum_termwise, get_row, get_col]
  rfl

/-- The inner product of two matrices adds up the inner products of their columns. -/
theorem inner_eq (a b : DenseMatrix m n α) :
    inner a b = ∑ j, a.toMatrix.transpose j ⬝ᵥ b.toMatrix.transpose j := by
  have hloop : ∀ (columns : List (Fin n)) (t : α),
      columns.foldl (fun total j => blockSum total (termwise (a.col j) (b.col j))) t
        = t + (columns.map fun j => a.toMatrix.transpose j ⬝ᵥ b.toMatrix.transpose j).sum := by
    intro columns
    induction columns with
    | nil => simp
    | cons j columns ih =>
        intro t
        rw [List.foldl_cons, ih, blockSum_eq, sum_termwise, get_col, get_col, List.map_cons,
          List.sum_cons, add_assoc]
  rw [inner, hloop, zero_add, Fin.sum_univ_def]

theorem trace_eq (a : DenseMatrix n n α) : a.trace = a.toMatrix.trace := by
  rw [trace, foldl_add_eq, zero_add, diagonal, ← Fin.sum_univ_def]
  rfl

theorem toMatrix_scale (a : DenseMatrix m n α) (x : α) : (a.scale x).toMatrix = x • a.toMatrix := by
  funext i j
  rw [toMatrix_apply, get_scale, mul_comm]
  rfl

@[simp] theorem toMatrix_identity : (identity n : DenseMatrix n n α).toMatrix = 1 := by
  funext i j
  rw [toMatrix_apply, get_identity, Matrix.one_apply]

theorem get_cross (u v : Vector α 3) : (cross u v).get = crossProduct u.get v.get := by
  rw [cross_apply]
  funext i
  fin_cases i <;> rfl

end

end DenseMatrix

end NodalAlgebra
