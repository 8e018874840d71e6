import NodalAlgebra.TensorValue
import NodalAlgebra.Space.Basic
import NodalAlgebra.Kernel.Pointwise

/-!
# Nodal functions

A function of a finite element space is given by its coefficients, one for each
degree of freedom of the space. Its value at a node is the tensor of the node's
coefficients.
-/

namespace NodalAlgebra

/-- A function in a whole space. -/
structure NodalFunction (α : Type) where
  space : FunctionSpace α
  coefficients : Array α
  /-- The mark of a function that has been filed; marked functions are the same
  function if their marks are equal. -/
  mark : Option Nat
  whole : space.component = none
  size_eq : coefficients.size = space.dim

namespace NodalFunction

variable {α : Type}

/-- The function with the given coefficients. -/
def ofCoefficients (V : FunctionSpace α) (coefficients : Array α) :
    Except SpaceError (NodalFunction α) :=
  if hwhole : V.component = none then
    if hsize : coefficients.size = V.dim then .ok ⟨V, coefficients, none, hwhole, hsize⟩
    else .error (.coefficientLength V.dim coefficients.size)
  else .error .subSpace

/-- Coefficients make the unmarked function that has them, and no other. -/
theorem ofCoefficients_eq_ok {V : FunctionSpace α} {coefficients : Array α}
    {f : NodalFunction α} :
    ofCoefficients V coefficients = .ok f ↔
      f.space = V ∧ f.coefficients = coefficients ∧ f.mark = none := by
  obtain ⟨W, values, mark, hwhole, hsize⟩ := f
  unfold ofCoefficients
  constructor
  · intro h
    split at h
    · split at h
      · cases h
        exact ⟨rfl, rfl, rfl⟩
      · cases h
    · cases h
  · rintro ⟨rfl, rfl, rfl⟩
    simp [hwhole, hsize]

/-- The same function under a mark. -/
def marked (f : NodalFunction α) (n : Nat) : NodalFunction α := { f with mark := some n }

/-- Whether two functions bear one mark. -/
def isSame (f g : NodalFunction α) : Bool := f.mark.isSome && f.mark == g.mark

/-- The shape of the values. -/
def valueShape (f : NodalFunction α) : Shape := f.space.element.valueShape

/-! ## Functions of a space -/

/-- The function that is zero everywhere. -/
def zeros [Zero α] (V : FunctionSpace α) : Except SpaceError (NodalFunction α) :=
  ofCoefficients V (Array.replicate V.dim 0)

/-- The components of one value for every node, node after node. Each value needs
as many components as the values of the space have. -/
def ofNodeValues (V : FunctionSpace α) (values : List (Array α)) :
    Except (Failure SpaceError) (NodalFunction α) :=
  if values.all fun v => v.size == V.element.componentCount then
    Failure.ofRefusal (ofCoefficients V values.toArray.flatten)
  else .error (.fault .componentCount)

/-- The function with the same value at every node. The number of components is
looked at even if there is no node. -/
def constant (V : FunctionSpace α) (value : Array α) :
    Except (Failure SpaceError) (NodalFunction α) :=
  if value.size = V.element.componentCount then
    ofNodeValues V (List.replicate V.nodeCount value)
  else .error (.fault .componentCount)

/-- The function that takes at every node the value of `φ` there. -/
def interpolate [Zero α] [Add α] [Div α] [NatCast α] (V : FunctionSpace α)
    (φ : Array α → Array α) : Except (Failure SpaceError) (NodalFunction α) :=
  ofNodeValues V (V.nodePoints.map φ)

/-! ## Values -/

/-- The value at a node, read from the node's block of coefficients. -/
def nodeValue? (f : NodalFunction α) (node : Nat) : Option (TensorValue α) :=
  if node < f.space.nodeCount then
    let k := f.space.stride
    TensorValue.read? f.valueShape.dims (f.coefficients.extract (node * k) (node * k + k))
  else none

/-- The value at a node has the shape of the function's values and the components
of the node's block. -/
theorem nodeValue?_eq_some {f : NodalFunction α} {node : Nat} {a : TensorValue α} :
    f.nodeValue? node = some a ↔
      node < f.space.nodeCount ∧ a.shape = f.valueShape
        ∧ a.components = f.coefficients.extract (node * f.space.stride)
            (node * f.space.stride + f.space.stride) := by
  unfold nodeValue?
  split
  · rename_i h
    simp only [h, true_and]
    exact TensorValue.read?_eq_some
  · rename_i h
    simp [h]

end NodalFunction

/-- What an expression evaluates to. -/
inductive Value (α : Type) where
  | function (f : NodalFunction α)
  | number (x : α)

namespace Value

variable {α : Type}

/-- The function, if the value is one. -/
def function? : Value α → Option (NodalFunction α)
  | .function f => some f
  | .number _ => none

/-- The value as an operand of a pointwise kernel. -/
def operand : Value α → PointwiseOperand α
  | .function f => .array f.coefficients
  | .number x => .number x

end Value

end NodalAlgebra
