import NodalAlgebra.Dense.Checked
import NodalAlgebra.Kernel.Tensor
import NodalAlgebra.Operator

/-!
# Tensor kernels with checks

The kernels of linear algebra as they are called with operands of any dimensions: a kernel
compares the dimensions of its operands, refuses those it has no value for, and hands the
others to operations that check for themselves what they rely on. Such an operation can
fault; so can a kernel that has no table for its value.
-/

namespace NodalAlgebra

/-- A function of the operands' values at a node that can also fault. -/
abbrev CheckedKernel (α : Type) :=
  List (TensorValue α) → Except (Failure KernelError) (TensorValue α)

namespace CheckedKernel

variable {α : Type}

open Failure (ofFault ofRefusal)

/-! ## One operand -/

/-- The only operand, as a matrix that has been found square. -/
def squareOperand (args : List (TensorValue α)) :
    Except (Failure KernelError) ((rows : Nat) × (cols : Nat) × DenseMatrix rows cols α) := do
  let ⟨r, c, a⟩ ← ofRefusal (TensorKernel.matrixOperand args)
  if r == c then return ⟨r, c, a⟩ else throw (.refused (.notSquare r c))

/-- The kernel that takes a square matrix to a number. -/
def ofInvariant (f : {n : Nat} → DenseMatrix n n α → α) : CheckedKernel α := fun args => do
  let ⟨_, _, a⟩ ← squareOperand args
  return .scalar (← ofFault (Checked.invariant f a))

/-- The determinant of a square matrix. -/
def determinant [LinearSolver α] : CheckedKernel α := ofInvariant LinearSolver.determinant

/-- The trace of a square matrix. -/
def trace [Zero α] [Add α] : CheckedKernel α := ofInvariant DenseMatrix.trace

section

variable [ByteSize α]

/-- The transpose of a matrix. -/
def transpose : CheckedKernel α := fun args => do
  let ⟨_, _, a⟩ ← ofRefusal (TensorKernel.matrixOperand args)
  return .matrix (← ofFault (Checked.transpose a))

/-- Half of a square matrix combined with its transpose. -/
def halfCombined [One α] [Add α] [Mul α] [Div α]
    (f : {m n : Nat} → DenseMatrix m n α → DenseMatrix m n α → DenseMatrix m n α) :
    CheckedKernel α := fun args => do
  let ⟨_, _, a⟩ ← squareOperand args
  let b ← ofFault (Checked.transpose a)
  let c ← ofFault (Checked.combine f a b)
  return .matrix (c.scale (1 / (1 + 1)))

/-- The symmetric part: half the sum of a matrix and its transpose. -/
def sym [One α] [Add α] [Mul α] [Div α] : CheckedKernel α := halfCombined DenseMatrix.add

/-- The skew part: half the difference of a matrix and its transpose. -/
def skew [One α] [Add α] [Sub α] [Mul α] [Div α] : CheckedKernel α :=
  halfCombined DenseMatrix.sub

/-- The deviatoric part: a matrix without the mean of its diagonal. -/
def deviatoric [Zero α] [One α] [Add α] [Sub α] [Mul α] [Div α] [NatCast α] :
    CheckedKernel α := fun args => do
  let ⟨r, _, a⟩ ← squareOperand args
  let mean := (← ofFault (Checked.invariant DenseMatrix.trace a)) / (r : α)
  let b ← ofFault (Checked.scaleMatrix (DenseMatrix.identity r) mean)
  return .matrix (← ofFault (Checked.combine DenseMatrix.sub a b))

variable [LinearSolver α]

/-- The inverse of a square matrix. -/
def inverse : CheckedKernel α := fun args => do
  let ⟨_, _, a⟩ ← squareOperand args
  match ← ofFault (Checked.inverse a) with
  | some b => return .matrix b
  | none => throw (.refused .singular)

/-- The cofactor matrix: the transposed inverse times the determinant. -/
def cofactor [Mul α] : CheckedKernel α := fun args => do
  let ⟨_, _, a⟩ ← squareOperand args
  match ← ofFault (Checked.inverse a) with
  | some b =>
      let c ← ofFault (Checked.transpose b)
      return .matrix (c.scale (← ofFault (Checked.invariant LinearSolver.determinant a)))
  | none => throw (.refused .singular)

end

/-! ## Two operands -/

section

/-- The full contraction of two operands of one shape. -/
def inner [Zero α] [Add α] [Mul α] : CheckedKernel α
  | [a, b] =>
    if a.shape ≠ b.shape then .error (.refused (.innerShapes a.shape b.shape))
    else
      match a, b with
      | .scalar x, .scalar y => .ok (.scalar (x * y))
      | .vector u, .vector v => do return .scalar (← ofFault (Checked.dot u v))
      | .matrix a', .matrix b' => do return .scalar (← ofFault (Checked.inner a' b'))
      | _, _ => .error (.fault .formMismatch)
  | args => .error (.refused (.operandCount 2 args.length))

variable [ByteSize α]

/-- The contraction of the last axis of the first operand with the first axis of
the second. Two numbers are multiplied. -/
def dot [Zero α] [Add α] [Mul α] : CheckedKernel α
  | [a, b] =>
    match a, b with
    | .scalar x, .scalar y => .ok (.scalar (x * y))
    | .vector (n := m) u, .vector (n := n) v =>
        if m == n then do return .scalar (← ofFault (Checked.dot u v))
        else .error (.refused (.dotShapes a.shape b.shape))
    | .matrix (c := m) a', .vector (n := n) v =>
        if m == n then do return .vector (← ofFault (Checked.mulVec a' v))
        else .error (.refused (.dotShapes a.shape b.shape))
    | .vector (n := m) u, .matrix (r := n) b' =>
        if m == n then do return .vector (← ofFault (Checked.vecMul u b'))
        else .error (.refused (.dotShapes a.shape b.shape))
    | .matrix (c := m) a', .matrix (r := n) b' =>
        if m == n then do return .matrix (← ofFault (Checked.mul a' b'))
        else .error (.refused (.dotShapes a.shape b.shape))
    | _, _ => .error (.refused (.dotShapes a.shape b.shape))
  | args => .error (.refused (.operandCount 2 args.length))

/-- The tensor product of two operands whose ranks add up to at most two. -/
def outer [Mul α] : CheckedKernel α
  | [a, b] =>
    match a, b with
    | .scalar x, .scalar y => .ok (.scalar (x * y))
    | .scalar x, .vector v | .vector v, .scalar x => do
        return .vector (← ofFault (Checked.scaleVector v x))
    | .scalar x, .matrix c | .matrix c, .scalar x => do
        return .matrix (← ofFault (Checked.scaleMatrix c x))
    | .vector u, .vector v => do return .matrix (← ofFault (Checked.outer u v))
    | _, _ => .error (.refused (.outerRank a.shape b.shape))
  | args => .error (.refused (.operandCount 2 args.length))

/-- The cross product of two vectors in space. -/
def cross [Sub α] [Mul α] : CheckedKernel α
  | [a, b] =>
    match a, b with
    | .vector (n := m) u, .vector (n := n) v =>
        if m == 3 && n == 3 then do return .vector (← ofFault (Checked.cross u v))
        else .error (.refused (.crossShapes a.shape b.shape))
    | _, _ => .error (.refused (.crossShapes a.shape b.shape))
  | args => .error (.refused (.operandCount 2 args.length))

end

/-! ## The kernel of an operator -/

/-- The kernels of the operators of linear algebra. -/
def standard [Zero α] [One α] [Add α] [Sub α] [Mul α] [Div α] [NatCast α] [LinearSolver α]
    [ByteSize α] : Operator → Option (CheckedKernel α)
  | .inverse => some inverse
  | .transposed => some transpose
  | .sym => some sym
  | .skew => some skew
  | .deviatoric => some deviatoric
  | .cofactor => some cofactor
  | .determinant => some determinant
  | .trace => some trace
  | .dot => some dot
  | .cross => some cross
  | .outer => some outer
  | .inner => some inner
  | _ => none

end CheckedKernel

end NodalAlgebra
