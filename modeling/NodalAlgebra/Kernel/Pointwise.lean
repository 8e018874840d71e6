/-!
# Pointwise kernels

A pointwise kernel is a function of one or two scalars. It is applied component
by component to whole arrays of coefficients, and a number among its operands
stands for an array that repeats it.
-/

namespace NodalAlgebra

/-- A function of one or two scalars. -/
inductive PointwiseKernel (α : Type) where
  | unary (f : α → α)
  | binary (f : α → α → α)

/-- An operand of a pointwise kernel. -/
inductive PointwiseOperand (α : Type) where
  | array (coefficients : Array α)
  | number (x : α)

/-- Why a pointwise kernel cannot be applied. -/
inductive ApplyError where
  | arity (expected actual : Nat)
  /-- Two arrays differ in length. -/
  | lengthMismatch (left right : Nat)
  /-- No operand is an array. -/
  | noArrayOperand
deriving DecidableEq

/-- The wording of the reasons. -/
def ApplyError.message : ApplyError → String
  | .arity expected actual => s!"Kernel expects {expected} operands, got {actual}."
  | .lengthMismatch left right =>
      s!"Coefficient arrays of length {left} and {right} can not be combined."
  | .noArrayOperand => "Kernel needs at least one coefficient array."

namespace PointwiseKernel

variable {α : Type}

/-- The number of operands of a kernel. -/
def arity : PointwiseKernel α → Nat
  | .unary _ => 1
  | .binary _ => 2

/-- Applies a kernel component by component. -/
def apply (kernel : PointwiseKernel α) (args : List (PointwiseOperand α)) :
    Except ApplyError (Array α) :=
  match kernel, args with
  | .unary f, [.array a] => .ok (a.map f)
  | .unary _, [.number _] => .error .noArrayOperand
  | .binary f, [.array a, .array b] =>
      if a.size = b.size then .ok (Array.zipWith f a b)
      else .error (.lengthMismatch a.size b.size)
  | .binary f, [.array a, .number y] => .ok (a.map fun x => f x y)
  | .binary f, [.number x, .array b] => .ok (b.map fun y => f x y)
  | .binary _, [.number _, .number _] => .error .noArrayOperand
  | kernel, args => .error (.arity kernel.arity args.length)

end PointwiseKernel

end NodalAlgebra
