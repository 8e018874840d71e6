import NodalAlgebra.Expr.Basic

/-!
# Kinds of values

What can be known of an expression's value without evaluating it: whether it is a
number, and otherwise the element and the mesh of the function it is. Kinds are
inferred from those of the leaves and from the declared shapes; no coefficient is
looked at.
-/

namespace NodalAlgebra

/-- The kind of a value: a number, or a function of an element on a mesh. -/
inductive ValueKind where
  | number
  | function (element : FiniteElement) (mesh : MeshId)
deriving DecidableEq

/-- The kind of a value. -/
def Value.kind {α : Type} : Value α → ValueKind
  | .function f => .function f.space.element f.space.mesh.id
  | .number _ => .number

/-- An operator on tensors: its result lives in a space of its own, with values of
the declared shape. -/
def Operator.isTensorial : Operator → Bool
  | .transposed | .trace | .determinant | .inverse | .sym | .skew | .deviatoric | .cofactor
  | .dot | .cross | .outer | .inner => true
  | _ => false

namespace ValueKind

/-- The scalar element and the mesh of a function. -/
def discretization? : ValueKind → Option (ScalarElement × MeshId)
  | .number => none
  | .function e id => some (e.scalarElement, id)

/-- The kind of a pointwise operation: that of the functions among its operands, if
there is one and they agree. -/
def ofShared (operands : List ValueKind) : Option ValueKind :=
  match operands.filter (· ≠ .number) with
  | [] => none
  | k :: rest => if rest.all (· = k) then some k else none

/-- The kind of an operation on tensors: functions with values of the declared
shape on the discretization of the operands, if all of them are functions and they
agree on it. -/
def ofDeclared (s : Shape) (operands : List ValueKind) : Option ValueKind := do
  match ← operands.mapM discretization? with
  | [] => none
  | d :: rest =>
      if rest.all (· = d) then
        let element ← FiniteElement.ofShape? d.1 s
        return .function element d.2
      else none

end ValueKind

namespace Expr

variable {α : Type}

mutual

/-- The kind of an expression's value. A selected component has none. -/
def kind? : Expr α → Option ValueKind
  | .function f => some (.function f.space.element f.space.mesh.id)
  | .constant _ => some .number
  | .operation op operands s => do
      let kinds ← kinds? operands
      if op = .indexed then none
      else if op.isTensorial then ValueKind.ofDeclared s kinds
      else ValueKind.ofShared kinds

/-- The kinds of the values of some expressions. -/
def kinds? : List (Expr α) → Option (List ValueKind)
  | [] => some []
  | e :: rest => do
      let kind ← kind? e
      return kind :: (← kinds? rest)

end

end Expr

end NodalAlgebra
