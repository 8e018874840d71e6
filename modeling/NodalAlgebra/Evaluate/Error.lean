import NodalAlgebra.Operator
import NodalAlgebra.Kernel.Error
import NodalAlgebra.Space.Error
import NodalAlgebra.Mesh.Basic

/-!
# Evaluation errors

Why an expression has no value, and how that is worded. An error caused by a
kernel or by a space carries the error it was caused by.
-/

namespace NodalAlgebra

/-- How the spaces of operands and results can fail to fit together. -/
inductive Inconsistency where
  /-- An operand lives in another space than the first function among the operands. -/
  | spaces (found : FiniteElement) (foundMesh : MeshId) (first : FiniteElement) (firstMesh : MeshId)
  /-- An operand is built from another scalar element than the first one. -/
  | subElements (found first : ScalarElement)
  /-- An operand lives on another mesh than the first one. -/
  | meshes (found first : MeshId)
  /-- A space with values that are no numbers has no sub-spaces. -/
  | noSubSpaces (element : FiniteElement)
  /-- The sub-spaces of a space have different elements. -/
  | mixedSubSpaces (element : FiniteElement)
  /-- The sub-spaces of a space have different numbers of degrees of freedom. -/
  | subSpaceSizes (element : FiniteElement)
  /-- A space with numbers as values is asked for another shape. -/
  | scalarSpace (element : FiniteElement) (shape : Shape)
  /-- A space is asked for a shape with another number of components. -/
  | subSpaceCount (count : Nat) (shape : Shape)
  /-- Two operands have different numbers of coefficients. -/
  | coefficientCounts (left right : Nat)
  /-- The operands have different numbers of nodes. -/
  | nodeCounts (op : Operator)
deriving DecidableEq

/-- The wording of the ways. -/
def Inconsistency.message : Inconsistency → String
  | .spaces e m e₀ m₀ =>
      "operand in space " ++ e.text ++ " on mesh " ++ m.text ++ " does not match space " ++ e₀.text
        ++ " on mesh " ++ m₀.text
  | .subElements e e₀ => "sub-element " ++ e.text ++ " does not match sub-element " ++ e₀.text
  | .meshes m m₀ => "mesh " ++ m.text ++ " does not match mesh " ++ m₀.text
  | .noSubSpaces e => "space " ++ e.text ++ " has no sub-spaces"
  | .mixedSubSpaces e => "sub-spaces of " ++ e.text ++ " do not share one element"
  | .subSpaceSizes e => "sub-spaces of " ++ e.text ++ " differ in size"
  | .scalarSpace e s =>
      "scalar space " ++ e.text ++ " can not hold values of shape " ++ s.text
  | .subSpaceCount n s =>
      "space with " ++ n.repr ++ " sub-spaces can not hold values of shape " ++ s.text
  | .coefficientCounts a b => "coefficient arrays of length " ++ a.repr ++ " and " ++ b.repr
  | .nodeCounts op => "operands of " ++ op.name ++ " have different numbers of nodes"

/-- Why an expression has no value. -/
inductive EvalError where
  | inconsistentSpace (how : Inconsistency)
  /-- The operator has no kernel. -/
  | unsupportedOperator (op : Operator)
  /-- No space holds values of the shape. -/
  | unsupportedRank (shape : Shape)
  /-- A function is missing among the operands. -/
  | noFunctionOperand
  /-- The operation has another number of operands than its operator or kernel takes. -/
  | arity (op : Operator) (expected actual : Nat)
  /-- A kernel's value has another shape than the operation declares. -/
  | kernelShape (expected actual : Shape)
  | kernel (op : Operator) (cause : KernelError)
  | space (cause : SpaceError)
deriving DecidableEq

namespace EvalError

/-- The wording of the reasons. -/
def message : EvalError → String
  | .inconsistentSpace how => s!"Inconsistent function spaces: {how.message}."
  | .unsupportedOperator op => s!"No kernel registered for operator {op.name}."
  | .unsupportedRank s =>
      s!"No function space for values of shape {s.text} (rank 3 and higher)."
  | .noFunctionOperand => "Operation has no function operand to take the space from."
  | .arity op expected actual =>
      s!"Operator {op.name} takes {expected} operands, got {actual}."
  | .kernelShape expected actual =>
      s!"Kernel produced value of shape {actual.text}, expected shape {expected.text}."
  | .kernel op cause => s!"Kernel for operator {op.name} failed. Error: {cause.message}"
  | .space cause => s!"Function space error: {cause.message}"

/-- The wording of the error that an error was caused by. -/
def source? : EvalError → Option String
  | .kernel _ cause => some cause.message
  | .space cause => some cause.message
  | _ => none

end EvalError

end NodalAlgebra
