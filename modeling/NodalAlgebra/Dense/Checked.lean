import NodalAlgebra.Dense.Inverse
import NodalAlgebra.Dense.Product
import NodalAlgebra.Shape

/-!
# Operations with checks

Operations on vectors and matrices that look at the dimensions of their operands
themselves, and that ask for a table before they compute the entries of their result. An
operation faults where its operands do not fit together or no table holds the result. A
copy of an operand always has room, since the operand has it.
-/

namespace NodalAlgebra

variable {α : Type}

/-- The number of components as the length of a table of scalars. -/
def Shape.table? (α : Type) [ByteSize α] (s : Shape) : Except Fault Nat := do
  Size.table? (ByteSize.bytes α) (← s.componentCount?)

namespace Checked

variable {m n p q : Nat}

/-! ## Dimensions -/

/-- The vector as one of length `n`, which it has to have. -/
def asVector (n : Nat) (v : Vector α m) : Except Fault (Vector α n) :=
  if h : m = n then .ok (v.cast h) else .error .lengthMismatch

/-- The matrix as one with `m` rows and `n` columns, which it has to have. -/
def asMatrix (m n : Nat) (a : DenseMatrix p q α) : Except Fault (DenseMatrix m n α) :=
  if h : p = m ∧ q = n then .ok (h.1 ▸ h.2 ▸ a) else .error .lengthMismatch

@[simp] theorem asVector_self (v : Vector α n) : asVector n v = .ok v := by
  simp [asVector]

@[simp] theorem asMatrix_self (a : DenseMatrix m n α) : asMatrix m n a = .ok a := by
  simp [asMatrix]

/-- The component of an index. -/
def component (v : Vector α n) (i : Nat) : Except Fault α :=
  match v[i]? with
  | some x => .ok x
  | none => .error .outOfRange

/-! ## Numbers -/

/-- The inner product of two vectors of one length. -/
def dot [Zero α] [Add α] [Mul α] (u : Vector α m) (v : Vector α n) : Except Fault α := do
  return DenseMatrix.dot u (← asVector m v)

/-- The inner product of two matrices of the same dimensions. -/
def inner [Zero α] [Add α] [Mul α] (a : DenseMatrix m n α) (b : DenseMatrix p q α) :
    Except Fault α := do
  return DenseMatrix.inner a (← asMatrix m n b)

/-- A number that belongs to a square matrix. -/
def invariant (f : {n : Nat} → DenseMatrix n n α → α) (a : DenseMatrix m n α) :
    Except Fault α := do
  return f (← asMatrix m m a)

/-! ## Vectors and matrices -/

variable [ByteSize α]

/-- Rows and columns exchanged. -/
def transpose (a : DenseMatrix m n α) : Except Fault (DenseMatrix n m α) := do
  let _ ← (Shape.matrix n m).table? α
  return a.transpose

/-- Two matrices of the same dimensions combined. -/
def combine (f : {m n : Nat} → DenseMatrix m n α → DenseMatrix m n α → DenseMatrix m n α)
    (a : DenseMatrix m n α) (b : DenseMatrix p q α) : Except Fault (DenseMatrix m n α) := do
  let b ← asMatrix m n b
  let _ ← (Shape.matrix m n).table? α
  return f a b

/-- The inverse of a square matrix, and none of one found singular. -/
def inverse [LinearSolver α] (a : DenseMatrix m n α) :
    Except Fault (Option (DenseMatrix m m α)) := do
  let a ← asMatrix m m a
  match LinearSolver.inverse? a with
  | some b =>
      let _ ← (Shape.matrix m m).table? α
      return some b
  | none => return none

/-- The product of a matrix and a column vector. -/
def mulVec [Zero α] [Add α] [Mul α] (a : DenseMatrix m n α) (v : Vector α p) :
    Except Fault (Vector α m) := do
  let v ← asVector n v
  let _ ← (Shape.vector m).table? α
  return a.mulVec v

/-- The product of a row vector and a matrix. -/
def vecMul [Zero α] [Add α] [Mul α] (u : Vector α p) (b : DenseMatrix m n α) :
    Except Fault (Vector α n) := do
  let u ← asVector m u
  let _ ← (Shape.vector n).table? α
  return DenseMatrix.vecMul u b

/-- The product of two matrices. -/
def mul [Zero α] [Add α] [Mul α] (a : DenseMatrix m p α) (b : DenseMatrix n q α) :
    Except Fault (DenseMatrix m q α) := do
  let a ← asMatrix m n a
  let _ ← (Shape.matrix m q).table? α
  return a.mul b

/-- A vector times a scalar. -/
def scaleVector [Mul α] (v : Vector α n) (x : α) : Except Fault (Vector α n) := do
  let _ ← (Shape.vector n).table? α
  return v.map (· * x)

/-- A matrix times a scalar. -/
def scaleMatrix [Mul α] (a : DenseMatrix m n α) (x : α) : Except Fault (DenseMatrix m n α) := do
  let _ ← (Shape.matrix m n).table? α
  return a.scale x

/-- The tensor product of two vectors. -/
def outer [Mul α] (u : Vector α m) (v : Vector α n) : Except Fault (DenseMatrix m n α) := do
  let _ ← (Shape.matrix m n).table? α
  return DenseMatrix.outer u v

/-- The cross product of the first three components of two vectors. -/
def cross [Sub α] [Mul α] (u : Vector α m) (v : Vector α n) : Except Fault (Vector α 3) := do
  let (u₀, u₁, u₂) := (← component u 0, ← component u 1, ← component u 2)
  let (v₀, v₁, v₂) := (← component v 0, ← component v 1, ← component v 2)
  let _ ← (Shape.vector 3).table? α
  return #v[u₁ * v₂ - u₂ * v₁, u₂ * v₀ - u₀ * v₂, u₀ * v₁ - u₁ * v₀]

end Checked

end NodalAlgebra
