/-!
# Operators

The operators of the expression grammar, in their fixed order, with their names
and the number of operands each takes.
-/

namespace NodalAlgebra

/-- An operator of the expression grammar. -/
inductive Operator where
  | sum
  | product
  | division
  | power
  | abs
  | sin
  | cos
  | tan
  | sqrt
  | exp
  | ln
  | sinh
  | cosh
  | tanh
  | asin
  | acos
  | atan
  | atan2
  | transposed
  | trace
  | determinant
  | inverse
  | sym
  | skew
  | deviatoric
  | cofactor
  | dot
  | cross
  | outer
  | inner
  /-- The selection of a single component. -/
  | indexed
deriving DecidableEq

namespace Operator

/-- All operators in order. -/
def all : List Operator :=
  [.sum, .product, .division, .power, .abs, .sin, .cos, .tan, .sqrt, .exp, .ln, .sinh, .cosh,
    .tanh, .asin, .acos, .atan, .atan2, .transposed, .trace, .determinant, .inverse, .sym, .skew,
    .deviatoric, .cofactor, .dot, .cross, .outer, .inner, .indexed]

theorem mem_all (op : Operator) : op ∈ all := by
  cases op <;> decide

/-- The name under which an operator is reported. -/
def name : Operator → String
  | .sum => "Sum"
  | .product => "Product"
  | .division => "Division"
  | .power => "Power"
  | .abs => "Abs"
  | .sin => "Sin"
  | .cos => "Cos"
  | .tan => "Tan"
  | .sqrt => "Sqrt"
  | .exp => "Exp"
  | .ln => "Ln"
  | .sinh => "Sinh"
  | .cosh => "Cosh"
  | .tanh => "Tanh"
  | .asin => "Asin"
  | .acos => "Acos"
  | .atan => "Atan"
  | .atan2 => "Atan2"
  | .transposed => "Transposed"
  | .trace => "Trace"
  | .determinant => "Determinant"
  | .inverse => "Inverse"
  | .sym => "Sym"
  | .skew => "Skew"
  | .deviatoric => "Deviatoric"
  | .cofactor => "Cofactor"
  | .dot => "Dot"
  | .cross => "Cross"
  | .outer => "Outer"
  | .inner => "Inner"
  | .indexed => "Indexed"

/-- The operator of a name. -/
def ofName? (s : String) : Option Operator := all.find? (·.name == s)

/-- The number of operands, where it is fixed. The selection of a component takes
the expression and one index for each of its axes. -/
def arity? : Operator → Option Nat
  | .sum | .product | .division | .power | .atan2 | .dot | .cross | .outer | .inner => some 2
  | .indexed => none
  | _ => some 1

end Operator

end NodalAlgebra
