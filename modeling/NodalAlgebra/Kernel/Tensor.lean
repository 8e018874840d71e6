import NodalAlgebra.TensorValue
import NodalAlgebra.Kernel.Error
import NodalAlgebra.Dense.Product
import NodalAlgebra.Dense.Inverse

/-!
# Tensor kernels

A tensor kernel takes the values of the operands at one node to the value of the
result there. It checks the number and the shapes of its operands itself. Here
are the kernels of linear algebra.
-/

namespace NodalAlgebra

/-- A function of the operands' values at a node. -/
abbrev TensorKernel (α : Type) := List (TensorValue α) → Except KernelError (TensorValue α)

namespace TensorKernel

variable {α : Type}

/-! ## Operands -/

/-- The only operand, as a matrix of some dimensions. -/
def matrixOperand : List (TensorValue α) →
    Except KernelError ((rows : Nat) × (cols : Nat) × DenseMatrix rows cols α)
  | [.matrix (r := r) (c := c) a] => .ok ⟨r, c, a⟩
  | [a] => .error (.notMatrix a.shape)
  | args => .error (.operandCount 1 args.length)

/-- The only operand, as a square matrix. -/
def squareOperand (args : List (TensorValue α)) :
    Except KernelError ((n : Nat) × DenseMatrix n n α) := do
  let ⟨r, c, a⟩ ← matrixOperand args
  if h : c = r then return ⟨r, a.castCols h⟩ else throw (.notSquare r c)

/-- The kernel that takes a square matrix to a matrix of its size. -/
def ofSquare (f : {n : Nat} → DenseMatrix n n α → DenseMatrix n n α) : TensorKernel α :=
  fun args => do
    let ⟨_, a⟩ ← squareOperand args
    return .matrix (f a)

/-- The kernel that takes a square matrix to a number. -/
def ofInvariant (f : {n : Nat} → DenseMatrix n n α → α) : TensorKernel α :=
  fun args => do
    let ⟨_, a⟩ ← squareOperand args
    return .scalar (f a)

/-! ## One operand -/

/-- The inverse of a square matrix. -/
def inverse [LinearSolver α] : TensorKernel α := fun args => do
  let ⟨_, a⟩ ← squareOperand args
  match LinearSolver.inverse? a with
  | some b => return .matrix b
  | none => throw .singular

/-- The transpose of a matrix. -/
def transpose : TensorKernel α := fun args => do
  let ⟨_, _, a⟩ ← matrixOperand args
  return .matrix a.transpose

/-- The symmetric part: half the sum of a matrix and its transpose. -/
def sym [One α] [Add α] [Mul α] [Div α] : TensorKernel α :=
  ofSquare fun a => (a.add a.transpose).scale (1 / (1 + 1))

/-- The skew part: half the difference of a matrix and its transpose. -/
def skew [One α] [Add α] [Sub α] [Mul α] [Div α] : TensorKernel α :=
  ofSquare fun a => (a.sub a.transpose).scale (1 / (1 + 1))

/-- The deviatoric part: a matrix without the mean of its diagonal. -/
def deviatoric [Zero α] [One α] [Add α] [Sub α] [Mul α] [Div α] [NatCast α] : TensorKernel α :=
  ofSquare fun {n} a => a.sub ((DenseMatrix.identity n).scale (a.trace / (n : α)))

/-- The cofactor matrix: the transposed inverse times the determinant. -/
def cofactor [Mul α] [LinearSolver α] : TensorKernel α := fun args => do
  let ⟨_, a⟩ ← squareOperand args
  match LinearSolver.inverse? a with
  | some b => return .matrix (b.transpose.scale (LinearSolver.determinant a))
  | none => throw .singular

/-- The determinant of a square matrix. -/
def determinant [LinearSolver α] : TensorKernel α :=
  ofInvariant LinearSolver.determinant

/-- The trace of a square matrix. -/
def trace [Zero α] [Add α] : TensorKernel α :=
  ofInvariant DenseMatrix.trace

/-! ## Two operands -/

/-- The contraction of the last axis of the first operand with the first axis of
the second. Two numbers are multiplied. -/
def dot [Zero α] [Add α] [Mul α] : TensorKernel α
  | [a, b] =>
    match a, b with
    | .scalar x, .scalar y => .ok (.scalar (x * y))
    | .vector (n := m) u, .vector (n := n) v =>
        if h : n = m then .ok (.scalar (DenseMatrix.dot u (v.cast h)))
        else .error (.dotShapes a.shape b.shape)
    | .matrix (c := m) a', .vector (n := n) v =>
        if h : n = m then .ok (.vector (a'.mulVec (v.cast h)))
        else .error (.dotShapes a.shape b.shape)
    | .vector (n := m) u, .matrix (r := n) b' =>
        if h : m = n then .ok (.vector (DenseMatrix.vecMul (u.cast h) b'))
        else .error (.dotShapes a.shape b.shape)
    | .matrix (c := m) a', .matrix (r := n) b' =>
        if h : m = n then .ok (.matrix ((a'.castCols h).mul b'))
        else .error (.dotShapes a.shape b.shape)
    | _, _ => .error (.dotShapes a.shape b.shape)
  | args => .error (.operandCount 2 args.length)

/-- The full contraction of two operands of one shape. -/
def inner [Zero α] [Add α] [Mul α] : TensorKernel α
  | [a, b] =>
    match a, b with
    | .scalar x, .scalar y => .ok (.scalar (x * y))
    | .vector (n := m) u, .vector (n := n) v =>
        if h : n = m then .ok (.scalar (DenseMatrix.dot u (v.cast h)))
        else .error (.innerShapes a.shape b.shape)
    | .matrix (r := m) (c := p) a', .matrix (r := n) (c := q) b' =>
        if h : n = m ∧ q = p then
          .ok (.scalar (DenseMatrix.inner a' (h.1 ▸ b'.castCols h.2)))
        else .error (.innerShapes a.shape b.shape)
    | _, _ => .error (.innerShapes a.shape b.shape)
  | args => .error (.operandCount 2 args.length)

/-- The tensor product of two operands whose ranks add up to at most two. -/
def outer [Mul α] : TensorKernel α
  | [a, b] =>
    match a, b with
    | .scalar x, .scalar y => .ok (.scalar (x * y))
    | .scalar x, .vector v => .ok (.vector (v.map (· * x)))
    | .vector v, .scalar x => .ok (.vector (v.map (· * x)))
    | .scalar x, .matrix b' => .ok (.matrix (b'.scale x))
    | .matrix a', .scalar x => .ok (.matrix (a'.scale x))
    | .vector u, .vector v => .ok (.matrix (DenseMatrix.outer u v))
    | _, _ => .error (.outerRank a.shape b.shape)
  | args => .error (.operandCount 2 args.length)

/-- The cross product of two vectors in space. -/
def cross [Sub α] [Mul α] : TensorKernel α
  | [a, b] =>
    match a, b with
    | .vector (n := 3) u, .vector (n := 3) v => .ok (.vector (DenseMatrix.cross u v))
    | _, _ => .error (.crossShapes a.shape b.shape)
  | args => .error (.operandCount 2 args.length)

end TensorKernel

end NodalAlgebra
