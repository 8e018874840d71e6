import NodalAlgebra.Dense.Basic
import NodalAlgebra.Scalar.Elementary

/-!
# Elimination with partial pivoting

Factors a square matrix, after exchanges of rows, into a lower triangular matrix
with ones on its diagonal and an upper triangular one. Both are kept in one
matrix: the multipliers below the diagonal, the upper factor on and above it.
The determinant and the inverse of a matrix of any size are read off the factors.
-/

namespace NodalAlgebra.DenseMatrix

variable {α : Type} {n : Nat}

/-! ## One column -/

/-- The row from row `i` on with the largest entry of column `i` in magnitude;
of several the first. -/
def pivotRow [Pivoting α] (a : DenseMatrix n n α) (i : Fin n) : Fin n :=
  (List.finRange n).foldl
    (fun best r => if i < r && Pivoting.exceeds (a.get r i) (a.get best i) then r else best) i

/-- Rows `i` and `j` exchanged. -/
def swapRows (a : DenseMatrix n n α) (i j : Fin n) : DenseMatrix n n α :=
  ofFn fun r c => a.get (if r = i then j else if r = j then i else r) c

/-- Takes the multiple of row `i` from each later row that clears column `i`
there, and leaves the multiplier in the place of the cleared entry. -/
def clearBelow [One α] [Add α] [Neg α] [Mul α] [Div α] (a : DenseMatrix n n α) (i : Fin n) :
    DenseMatrix n n α :=
  let scale := 1 / a.get i i
  ofFn fun r c =>
    if r ≤ i ∨ c < i then a.get r c
    else if c = i then a.get r i * scale
    else -a.get i c * (a.get r i * scale) + a.get r c

/-- Clears column `i` below the diagonal after bringing its pivot there. Gives
the row the pivot was found in, and nothing if the pivot is zero. -/
def eliminate? [One α] [Add α] [Neg α] [Mul α] [Div α] [Pivoting α]
    (a : DenseMatrix n n α) (i : Fin n) : Option (Fin n × DenseMatrix n n α) :=
  let r := a.pivotRow i
  if Pivoting.isZero (a.get r i) then none
  else some (r, (a.swapRows i r).clearBelow i)

/-! ## Determinant -/

/-- The determinant by elimination: the product of the diagonal of the upper
factor, negated for an odd number of exchanges. A column without a pivot is
passed over. -/
def determinantByElimination [One α] [Add α] [Neg α] [Mul α] [Div α] [Pivoting α]
    (a : DenseMatrix n n α) : α :=
  let (factors, odd) := (List.finRange n).foldl
    (fun (state : DenseMatrix n n α × Bool) i =>
      match state.1.eliminate? i with
      | none => state
      | some (r, b) => (b, state.2 != decide (r ≠ i)))
    (a, false)
  factors.diagonal.foldl (· * ·) 1 * (if odd then -1 else 1)

/-! ## Inverse -/

/-- Solves with the lower factor: from the first component on, each is taken in
its multiples from the later ones. -/
def forward [Add α] [Neg α] [Mul α] (l : DenseMatrix n n α) (b : Vector α n) : Vector α n :=
  (List.finRange n).foldl
    (fun b i => Vector.ofFn fun r => if i < r then -b.get i * l.get r i + b.get r else b.get r) b

/-- Solves with the upper factor: from the last component on, each is divided by
its diagonal entry and taken in its multiples from the earlier ones. -/
def backward [Add α] [Neg α] [Mul α] [Div α] (u : DenseMatrix n n α) (b : Vector α n) :
    Vector α n :=
  (List.finRange n).reverse.foldl
    (fun b i =>
      let x := b.get i / u.get i i
      Vector.ofFn fun r =>
        if r = i then x else if r < i then -x * u.get r i + b.get r else b.get r) b

/-- The inverse by elimination, column by column; none if a pivot is zero. The
identity has its rows exchanged along. -/
def inverseByElimination? [Zero α] [One α] [Add α] [Neg α] [Mul α] [Div α] [Pivoting α]
    (a : DenseMatrix n n α) : Option (DenseMatrix n n α) := do
  let (factors, unit) ← (List.finRange n).foldlM
    (fun (state : DenseMatrix n n α × DenseMatrix n n α) i => do
      let (r, b) ← state.1.eliminate? i
      return (b, state.2.swapRows i r))
    (a, identity n)
  let columns := Vector.ofFn fun j => factors.backward (factors.forward (unit.col j))
  return ofFn fun i j => (columns.get j).get i

end NodalAlgebra.DenseMatrix
