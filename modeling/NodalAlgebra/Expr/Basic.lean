import NodalAlgebra.Operator
import NodalAlgebra.NodalFunction

/-!
# Expressions

Trees of operators over functions and constants. Every operation declares the
shape of its result; what it declares is not checked here.
-/

namespace NodalAlgebra

/-- An expression over functions with scalars of type `α`. -/
inductive Expr (α : Type) where
  | function (f : NodalFunction α)
  | constant (x : α)
  | operation (op : Operator) (operands : List (Expr α)) (shape : Shape)

namespace Expr

variable {α : Type}

/-- The shape of an expression's values. -/
def shape : Expr α → Shape
  | .function f => f.valueShape
  | .constant _ => .scalar
  | .operation _ _ s => s

mutual

/-- The number of levels of a tree. -/
def depth : Expr α → Nat
  | .function _ => 1
  | .constant _ => 1
  | .operation _ operands _ => depthAll operands + 1

/-- The largest number of levels among some trees. -/
def depthAll : List (Expr α) → Nat
  | [] => 0
  | e :: rest => max (depth e) (depthAll rest)

end

mutual

/-- The text of a tree: a function is its element, a constant is written by
`number`, an operation lists its operands behind its name and shape. -/
def text (number : α → String) : Expr α → String
  | .function f => f.space.element.text
  | .constant x => number x
  | .operation op operands s =>
      op.name ++ ":" ++ s.text ++ "[" ++ ", ".intercalate (textAll number operands) ++ "]"

/-- The texts of some trees. -/
def textAll (number : α → String) : List (Expr α) → List String
  | [] => []
  | e :: rest => text number e :: textAll number rest

end

end Expr

end NodalAlgebra
