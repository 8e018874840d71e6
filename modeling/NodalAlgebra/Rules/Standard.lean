import NodalAlgebra.Rules.Basic

/-!
# Standard rules

The kernels of every operator except the selection of a component.
-/

namespace NodalAlgebra

namespace KernelTables

variable {α : Type}

/-- The standard pointwise kernels: arithmetic and the elementary functions. -/
def standardPointwise [Add α] [Mul α] [Div α] [Elementary α] :
    Operator → Option (PointwiseKernel α)
  | .sum => some (.binary (· + ·))
  | .product => some (.binary (· * ·))
  | .division => some (.binary (· / ·))
  | .power => some (.binary Elementary.pow)
  | .atan2 => some (.binary Elementary.atan2)
  | .abs => some (.unary Elementary.abs)
  | .sin => some (.unary Elementary.sin)
  | .cos => some (.unary Elementary.cos)
  | .tan => some (.unary Elementary.tan)
  | .sqrt => some (.unary Elementary.sqrt)
  | .exp => some (.unary Elementary.exp)
  | .ln => some (.unary Elementary.ln)
  | .sinh => some (.unary Elementary.sinh)
  | .cosh => some (.unary Elementary.cosh)
  | .tanh => some (.unary Elementary.tanh)
  | .asin => some (.unary Elementary.asin)
  | .acos => some (.unary Elementary.acos)
  | .atan => some (.unary Elementary.atan)
  | _ => none

/-- The standard tensor kernels: linear algebra at a node. -/
def standardTensor [Zero α] [One α] [Add α] [Sub α] [Mul α] [Div α] [NatCast α]
    [LinearSolver α] : Operator → Option (TensorKernel α)
  | .inverse => some TensorKernel.inverse
  | .transposed => some TensorKernel.transpose
  | .sym => some TensorKernel.sym
  | .skew => some TensorKernel.skew
  | .deviatoric => some TensorKernel.deviatoric
  | .cofactor => some TensorKernel.cofactor
  | .determinant => some TensorKernel.determinant
  | .trace => some TensorKernel.trace
  | .dot => some TensorKernel.dot
  | .cross => some TensorKernel.cross
  | .outer => some TensorKernel.outer
  | .inner => some TensorKernel.inner
  | _ => none

end KernelTables

/-- The standard rules. -/
def Rules.standard {α : Type} [Zero α] [One α] [Add α] [Sub α] [Mul α] [Div α] [NatCast α]
    [Elementary α] [LinearSolver α] : Rules α where
  pointwise := KernelTables.standardPointwise
  tensor := KernelTables.standardTensor
  consistent op := by cases op <;> rfl

end NodalAlgebra
