import NodalAlgebra.Expr.Basic
import NodalAlgebra.Expr.Typing

/-!
# Construction of expressions

Operations whose declared shape follows from the shapes of their operands. A
difference is the sum with the negative, and the negative is the product with
minus one.
-/

namespace NodalAlgebra.Expr

variable {α : Type}

/-- An operator applied to one expression. -/
def unary (op : Operator) (a : Expr α) : Except ShapeError (Expr α) := do
  let s ← op.unaryShape a.shape
  return .operation op [a] s

/-- An operator applied to two expressions. -/
def binary (op : Operator) (a b : Expr α) : Except ShapeError (Expr α) := do
  let s ← op.binaryShape a.shape b.shape
  return .operation op [a, b] s

/-- The negative of an expression. -/
def neg [One α] [Neg α] (a : Expr α) : Except ShapeError (Expr α) :=
  binary .product (.constant (-1)) a

/-- The difference of two expressions. -/
def sub [One α] [Neg α] (a b : Expr α) : Except ShapeError (Expr α) := do
  binary .sum a (← neg b)

/-- The component of an expression at a list of indices, one for each axis. The
indices are kept as constants behind the expression. -/
def component [NatCast α] (a : Expr α) (index : List Nat) : Except ShapeError (Expr α) := do
  a.shape.checkIndex index
  return .operation .indexed (a :: index.map fun (i : Nat) => .constant (i : α)) .scalar

end NodalAlgebra.Expr
