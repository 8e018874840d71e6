import NodalAlgebra.Shape

/-!
# Errors of tensor kernels

Why a kernel has no value for its operands, and how that is worded.
-/

namespace NodalAlgebra

/-- Why a tensor kernel fails. -/
inductive KernelError where
  /-- The kernel was given another number of operands. -/
  | operandCount (expected actual : Nat)
  | notMatrix (shape : Shape)
  | notSquare (rows cols : Nat)
  | singular
  | dotShapes (left right : Shape)
  | innerShapes (left right : Shape)
  | outerRank (left right : Shape)
  | crossShapes (left right : Shape)
  /-- A reason of a kernel from outside the library. -/
  | other (reason : String)
deriving DecidableEq

/-- The wording of a kernel's failure. -/
def KernelError.message : KernelError → String
  | .operandCount expected actual =>
      let noun := if expected = 1 then "operand" else "operands"
      s!"Expected {expected} {noun}, got {actual}"
  | .notMatrix s => s!"Expected matrix operand, got shape {s.text}"
  | .notSquare r c => s!"Expected square matrix, got {r}x{c}"
  | .singular => "Singular matrix encountered in inverse"
  | .dotShapes a b => s!"Can not take dot product of shapes {a.text} and {b.text}"
  | .innerShapes a b => s!"Can not take inner product of shapes {a.text} and {b.text}"
  | .outerRank a b => s!"Outer product of shapes {a.text} and {b.text} has rank 3 or higher"
  | .crossShapes a b =>
      s!"Cross product requires two 3-vectors, got shapes {a.text} and {b.text}"
  | .other reason => reason

end NodalAlgebra
