import NodalAlgebra.NodalFunction
import NodalAlgebra.Evaluate.Error

/-!
# Agreement of spaces

The space that the functions among some values share, the scalar element and the
mesh that some spaces share, and the space on a shared mesh for values of another
shape. Each item is compared with the first one.
-/

namespace NodalAlgebra

variable {α : Type}

/-! ## One space -/

/-- The first of some spaces, if the others are compatible with it. -/
def agreeOnSpace (first : FunctionSpace α) : List (FunctionSpace α) →
    Except EvalError (FunctionSpace α)
  | [] => .ok first
  | V :: rest =>
      if first.isCompatible V then agreeOnSpace first rest
      else .error (.inconsistentSpace (.spaces V.element V.mesh.id first.element first.mesh.id))

/-- The space shared by all functions among the values: that of the first one. -/
def sharedSpace (values : List (Value α)) : Except EvalError (FunctionSpace α) :=
  match (values.filterMap Value.function?).map (·.space) with
  | [] => .error .noFunctionOperand
  | first :: rest => agreeOnSpace first rest

/-! ## One discretization -/

/-- The scalar element of a space: its own if its values are numbers, else the one
that its sub-spaces have in common. -/
def FunctionSpace.subElement (V : FunctionSpace α) : Except EvalError ScalarElement :=
  match V.element, V.subSpaces with
  | .scalar e, [] => .ok e
  | e, [] => .error (.inconsistentSpace (.noSubSpaces e))
  | e, first :: rest =>
      if rest.any fun W => W.element != first.element then
        .error (.inconsistentSpace (.mixedSubSpaces e))
      else .ok first.element.scalarElement

/-- The scalar element and the mesh of a space. -/
def FunctionSpace.discretization (V : FunctionSpace α) :
    Except EvalError (ScalarElement × Mesh α) := do
  return (← V.subElement, V.mesh)

/-- The scalar element and the mesh of the first of some spaces, if the others are
built from the same element on the same mesh. -/
def agreeOnDiscretization (first : ScalarElement × Mesh α) : List (FunctionSpace α) →
    Except EvalError (ScalarElement × Mesh α)
  | [] => .ok first
  | V :: rest => do
      let (e, M) ← V.discretization
      if e ≠ first.1 then .error (.inconsistentSpace (.subElements e first.1))
      else if M.id ≠ first.2.id then .error (.inconsistentSpace (.meshes M.id first.2.id))
      else agreeOnDiscretization first rest

/-- The scalar element and the mesh shared by all spaces. -/
def sharedDiscretization : List (FunctionSpace α) → Except EvalError (ScalarElement × Mesh α)
  | [] => .error .noFunctionOperand
  | V :: rest => do agreeOnDiscretization (← V.discretization) rest

/-! ## The space of a shape -/

/-- The space on a mesh that holds values of a shape, each component in the given
scalar element. -/
def FunctionSpace.ofShape (e : ScalarElement) (s : Shape) (M : Mesh α) :
    Except (Failure EvalError) (FunctionSpace α) :=
  match FiniteElement.ofShape? e s with
  | none => .error (.refused (.unsupportedRank s))
  | some element => Failure.mapReason .space (FunctionSpace.build M element)

end NodalAlgebra
