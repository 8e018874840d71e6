import NodalAlgebra.Operator
import NodalAlgebra.Shape

/-!
# Result shapes

The rules of tensor algebra by which the shapes of the operands decide the shape
of an operation's result, and the ways in which operands can break them.
-/

namespace NodalAlgebra

/-- How the shapes of the operands can break the rule of an operator. -/
inductive ShapeError where
  | sumShapes
  | atan2Shapes
  | innerShapes
  /-- No factor of a product is a number. -/
  | noScalarFactor (left right : Shape)
  | denominator
  | exponent
  | notMatrix (shape : Shape)
  | notSquare (op : Operator) (shape : Shape)
  | contraction (left right : Shape)
  | crossShapes
  /-- A component is selected by another number of indices than there are axes. -/
  | indexRank
  /-- An index lies outside its axis. -/
  | indexRange
  /-- The operator takes another number of operands. -/
  | operandCount (op : Operator) (actual : Nat)
deriving DecidableEq

/-- The wording of the ways. -/
def ShapeError.message : ShapeError → String
  | .sumShapes => "Operands of a sum must have the same shape"
  | .atan2Shapes => "Operands of atan2 must have the same shape"
  | .innerShapes => "Operands of an inner product must have the same shape"
  | .noScalarFactor a b =>
      s!"Product requires at least one scalar operand, got shapes {a.text} and {b.text}"
  | .denominator => "Denominator must be scalar"
  | .exponent => "Exponent must be scalar"
  | .notMatrix s => s!"Transpose requires a matrix operand, got shape {s.text}"
  | .notSquare op s => s!"{op.name} requires a square matrix operand, got shape {s.text}"
  | .contraction a b => s!"Dimension mismatch in dot product of shapes {a.text} and {b.text}"
  | .crossShapes => "Cross product requires two 3-vectors"
  | .indexRank => "Multi-index must match rank of indexed expression"
  | .indexRange => "Multi-index out of bounds"
  | .operandCount op n => s!"Operator {op.name} can not be applied to {n} operands"

namespace Operator

/-- The shape of an operator's result for one operand. -/
def unaryShape (op : Operator) (s : Shape) : Except ShapeError Shape :=
  match op with
  | .abs | .sin | .cos | .tan | .sqrt | .exp | .ln | .sinh | .cosh | .tanh | .asin | .acos
  | .atan => .ok s
  | .transposed =>
      match s.dims with
      | [r, c] => .ok (.matrix c r)
      | _ => .error (.notMatrix s)
  | .trace | .determinant => if s.isSquare then .ok .scalar else .error (.notSquare op s)
  | .inverse | .sym | .skew | .deviatoric | .cofactor =>
      if s.isSquare then .ok s else .error (.notSquare op s)
  | _ => .error (.operandCount op 1)

/-- The shape of an operator's result for two operands. -/
def binaryShape (op : Operator) (a b : Shape) : Except ShapeError Shape :=
  match op with
  | .sum => if a = b then .ok a else .error .sumShapes
  | .product =>
      if a.isScalar then .ok b
      else if b.isScalar then .ok a
      else .error (.noScalarFactor a b)
  | .division => if b.isScalar then .ok a else .error .denominator
  | .power => if b.isScalar then .ok a else .error .exponent
  | .atan2 => if a = b then .ok a else .error .atan2Shapes
  | .dot =>
      if a.dims ≠ [] ∧ b.dims ≠ [] ∧ a.dims.getLast? = b.dims.head? then
        .ok ⟨a.dims.dropLast ++ b.dims.tail⟩
      else .error (.contraction a b)
  | .inner => if a = b then .ok .scalar else .error .innerShapes
  | .outer => .ok ⟨a.dims ++ b.dims⟩
  | .cross =>
      if a = .vector 3 ∧ b = .vector 3 then .ok (.vector 3) else .error .crossShapes
  | _ => .error (.operandCount op 2)

end Operator

/-- Checks a list of indices against the axes of a shape. -/
def Shape.checkIndex (s : Shape) (index : List Nat) : Except ShapeError Unit :=
  if index.length ≠ s.rank then .error .indexRank
  else if (index.zip s.dims).all fun p => p.1 < p.2 then .ok ()
  else .error .indexRange

end NodalAlgebra
