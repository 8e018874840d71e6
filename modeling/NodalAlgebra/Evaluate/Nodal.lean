import NodalAlgebra.Evaluate.Basic

/-!
# Values at a node

What an expression stands for at a single node. Kernels are applied to the values
of the operands there, and nothing but the leaves' values at the node enters:
neither spaces nor arrays of coefficients. `valueAt` is the meaning by which an
evaluation is judged, node by node.
-/

namespace NodalAlgebra

/-- What an expression stands for at a node: the value of a function there, or a
number that is the same at all nodes. -/
inductive NodeValue (α : Type) where
  | tensor (a : TensorValue α)
  | number (x : α)

namespace NodeValue

variable {α : Type}

/-- The value of a function, if it is one. -/
def tensor? : NodeValue α → Option (TensorValue α)
  | .tensor a => some a
  | .number _ => none

end NodeValue

/-! ## Kernels at a node -/

/-- Applies a pointwise kernel to each component of the operands. A number is
combined with every component of the other operand. -/
def PointwiseKernel.applyAt {α : Type} (kernel : PointwiseKernel α) (args : List (NodeValue α)) :
    Option (TensorValue α) :=
  match kernel, args with
  | .unary f, [.tensor a] => some (a.map f)
  | .binary f, [.tensor a, .tensor b] => TensorValue.zipWith? f a b
  | .binary f, [.tensor a, .number y] => some (a.map fun x => f x y)
  | .binary f, [.number x, .tensor b] => some (b.map fun y => f x y)
  | _, _ => none

/-- Applies a kernel to the values of the operands. A tensor kernel takes values
of functions only. -/
def Kernel.applyAt {α : Type} (kernel : Kernel α) (args : List (NodeValue α)) :
    Option (TensorValue α) :=
  match kernel with
  | .pointwise k => k.applyAt args
  | .tensor k => do (k (← args.mapM NodeValue.tensor?)).toOption

/-! ## Expressions at a node -/

namespace Expr

variable {α : Type}

mutual

/-- What an expression stands for at a node where a function `f` has the value
`leaf f`. The shapes that operations declare play no part. -/
def valueAt (R : Rules α) (leaf : NodalFunction α → Option (TensorValue α)) :
    Expr α → Option (NodeValue α)
  | .function f => (leaf f).map .tensor
  | .constant x => some (.number x)
  | .operation op operands _ => do
      let kernel ← (R.select op operands.length).toOption
      let args ← valuesAt R leaf operands
      return .tensor (← kernel.applyAt args)

/-- What some expressions stand for at a node. -/
def valuesAt (R : Rules α) (leaf : NodalFunction α → Option (TensorValue α)) :
    List (Expr α) → Option (List (NodeValue α))
  | [] => some []
  | e :: rest => do
      let value ← valueAt R leaf e
      return value :: (← valuesAt R leaf rest)

end

end Expr

end NodalAlgebra
