import NodalAlgebra.NodeMap
import NodalAlgebra.Rules.Basic
import NodalAlgebra.Expr.Basic
import NodalAlgebra.Space.Agreement

/-!
# Evaluation

Functions and constants evaluate to themselves. For an operation the kernel is
looked up first; then the operands are evaluated from left to right, and the
kernel is applied to their values. A pointwise kernel maps the coefficients of
its operands, and the result lives in their space. A tensor kernel is applied at
every node to the values of its operands there, and the result lives in the space
of the declared shape.

Kernels have values or errors and meet no faults here. The standard ones do so wherever
there is a table for their value (`CheckedKernel.standard`).
-/

namespace NodalAlgebra

variable {α : Type}

/-! ## Pointwise operations -/

/-- The error of an operation whose kernel cannot be applied to the coefficients. -/
def EvalError.ofApply (op : Operator) : ApplyError → EvalError
  | .arity expected actual => .arity op expected actual
  | .lengthMismatch left right => .inconsistentSpace (.coefficientCounts left right)
  | .noArrayOperand => .noFunctionOperand

/-- Applies a pointwise kernel to the coefficients of the operands. -/
def applyPointwise (op : Operator) (kernel : PointwiseKernel α) (values : List (Value α)) :
    Except EvalError (NodalFunction α) := do
  let V ← sharedSpace values
  let coefficients ← (kernel.apply (values.map Value.operand)).mapError (.ofApply op)
  (NodalFunction.ofCoefficients V coefficients).mapError .space

/-! ## Operations on node values -/

/-- The operands as functions. -/
def functionOperands : List (Value α) → Except EvalError (List (NodalFunction α))
  | [] => .ok []
  | .function f :: rest => do return f :: (← functionOperands rest)
  | .number _ :: _ => .error .noFunctionOperand

/-- The values of some functions at a node, each read through its map. -/
def gatherAll (node : Nat) : List (NodeMap × NodalFunction α) →
    Except (Failure EvalError) (List (TensorValue α))
  | [] => .ok []
  | (m, f) :: rest => do
      let value ← m.gather f.coefficients node
      return value :: (← gatherAll node rest)

/-- Enters the kernel's value at a node into the coefficients of the result. -/
def applyAtNode (op : Operator) (kernel : TensorKernel α)
    (operands : List (NodeMap × NodalFunction α)) (target : NodeMap) (coefficients : Array α)
    (node : Nat) : Except (Failure EvalError) (Array α) := do
  let values ← gatherAll node operands
  let value ← Failure.ofRefusal ((kernel values).mapError (.kernel op))
  target.scatter coefficients node value

/-- Applies a tensor kernel node by node. All operands have to be functions of one
discretization; the result holds values of the declared shape. -/
def applyTensor [Zero α] (op : Operator) (kernel : TensorKernel α) (shape : Shape)
    (values : List (Value α)) : Except (Failure EvalError) (NodalFunction α) := do
  let functions ← Failure.ofRefusal (functionOperands values)
  let (element, M) ← Failure.ofRefusal (sharedDiscretization (functions.map (·.space)))
  let maps ← functions.mapM fun f => NodeMap.build f.space f.valueShape
  let nodes := (maps.head?.map NodeMap.nodeCount).getD 0
  if maps.any fun m => m.nodeCount != nodes then
    throw (.refused (.inconsistentSpace (.nodeCounts op)))
  let W ← FunctionSpace.ofShape element shape M
  let target ← NodeMap.build W shape
  if target.nodeCount ≠ nodes then
    throw (.fault .lengthMismatch)
  let coefficients ← (List.range nodes).foldlM
    (applyAtNode op kernel (maps.zip functions) target) (Array.replicate W.dim 0)
  Failure.ofRefusal ((NodalFunction.ofCoefficients W coefficients).mapError .space)

/-! ## Expressions -/

/-- The kernel by which an operation is evaluated. -/
inductive Kernel (α : Type) where
  | pointwise (kernel : PointwiseKernel α)
  | tensor (kernel : TensorKernel α)

/-- The kernel of an operator with a number of operands. -/
def Rules.select (R : Rules α) (op : Operator) (operands : Nat) : Except EvalError (Kernel α) :=
  match op.arity? with
  | some n => if n = operands then lookUp else .error (.arity op n operands)
  | none => lookUp
where
  /-- The entry of the operator in either table. -/
  lookUp : Except EvalError (Kernel α) :=
    match R.tensor op, R.pointwise op with
    | some kernel, _ => .ok (.tensor kernel)
    | none, some kernel => .ok (.pointwise kernel)
    | none, none => .error (.unsupportedOperator op)

/-- Applies the kernel of an operation to the values of its operands. -/
def Kernel.apply [Zero α] (kernel : Kernel α) (op : Operator) (shape : Shape)
    (values : List (Value α)) : Except (Failure EvalError) (NodalFunction α) :=
  match kernel with
  | .pointwise k => Failure.ofRefusal (applyPointwise op k values)
  | .tensor k => applyTensor op k shape values

mutual

/-- The value of an expression under some rules. A function evaluates to itself. -/
def evaluate [Zero α] (R : Rules α) : Expr α → Except (Failure EvalError) (Value α)
  | .function f => .ok (.function f)
  | .constant x => .ok (.number x)
  | .operation op operands shape => do
      let kernel ← Failure.ofRefusal (R.select op operands.length)
      let values ← evaluateAll R operands
      return .function (← kernel.apply op shape values)

/-- The values of some expressions, from left to right. -/
def evaluateAll [Zero α] (R : Rules α) :
    List (Expr α) → Except (Failure EvalError) (List (Value α))
  | [] => .ok []
  | e :: rest => do
      let value ← evaluate R e
      return value :: (← evaluateAll R rest)

end

end NodalAlgebra
