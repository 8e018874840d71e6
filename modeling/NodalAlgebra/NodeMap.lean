import NodalAlgebra.NodalFunction
import NodalAlgebra.Evaluate.Error

/-!
# Node maps

A node map lists for every node of a space the coefficients that hold the
components of the value there, in row-major order. Values are gathered from and
scattered to an array of coefficients through the map.
-/

namespace NodalAlgebra

/-- The coefficients of every node. -/
structure NodeMap where
  /-- The shape of the values. -/
  shape : Shape
  /-- The number of components of a value. -/
  components : Nat
  /-- For each node the indices of its components. -/
  rows : Array (List Nat)
deriving DecidableEq

namespace NodeMap

variable {α : Type}

/-! ## Construction -/

/-- The degree of freedom of a node, looked up among those of a sub-space. -/
def dofAt (dofs : Array Nat) (node : Nat) : Except Fault Nat :=
  match dofs[node]? with
  | some i => .ok i
  | none => .error .outOfRange

/-- The rows of a space with sub-spaces, which all have to have as many degrees of
freedom as the first one. A row looks up its node in each of them. -/
def subSpaceRows (V : FunctionSpace α) : Except (Failure EvalError) (Array (List Nat)) := do
  let tables := V.subSpaces.map fun W => W.dofs.toArray
  let nodes := (tables.head?.map Array.size).getD 0
  if tables.any fun dofs => dofs.size != nodes then
    throw (.refused (.inconsistentSpace (.subSpaceSizes V.element)))
  let rows ← Failure.ofFault
    ((List.range nodes).mapM fun n => tables.mapM fun dofs => dofAt dofs n)
  return rows.toArray

/-- The map for values of a shape in a space. A space without sub-spaces holds
numbers; another one holds vectors and matrices with a component for each
sub-space. -/
def build (V : FunctionSpace α) (s : Shape) : Except (Failure EvalError) NodeMap :=
  if 2 < s.rank then .error (.refused (.unsupportedRank s))
  else if V.subCount = 0 then
    if s.isScalar then .ok ⟨s, 1, (V.dofs.map fun i => [i]).toArray⟩
    else .error (.refused (.inconsistentSpace (.scalarSpace V.element s)))
  else if s.isScalar then
    .error (.refused (.inconsistentSpace (.subSpaceCount V.subCount s)))
  else do
    let count ← Failure.ofFault s.componentCount?
    if count = V.subCount then return ⟨s, V.subCount, ← subSpaceRows V⟩
    else throw (.refused (.inconsistentSpace (.subSpaceCount V.subCount s)))

/-- The number of nodes. -/
def nodeCount (m : NodeMap) : Nat := m.rows.size

/-- The indices of the components at a node. -/
def indices (m : NodeMap) (node : Nat) : Except Fault (List Nat) :=
  match m.rows[node]? with
  | some row => .ok row
  | none => .error .outOfRange

/-! ## Access to coefficients -/

/-- The coefficient of an index. -/
def readAt (coefficients : Array α) (i : Nat) : Except Fault α :=
  match coefficients[i]? with
  | some x => .ok x
  | none => .error .outOfRange

/-- The coefficients with the one of an index replaced. -/
def writeAt (coefficients : Array α) (i : Nat) (x : α) : Except Fault (Array α) :=
  if h : i < coefficients.size then .ok (coefficients.set i x) else .error .outOfRange

/-- The value at a node. -/
def gather (m : NodeMap) (coefficients : Array α) (node : Nat) :
    Except (Failure EvalError) (TensorValue α) := do
  let row ← Failure.ofFault (m.indices node)
  let values ← Failure.ofFault (row.mapM (readAt coefficients))
  match ← Failure.ofFault (TensorValue.ofRowMajor? m.shape values.toArray) with
  | some value => return value
  | none => throw (.refused (.unsupportedRank m.shape))

/-- The coefficients with the value at a node replaced by one of the map's shape. -/
def scatter (m : NodeMap) (coefficients : Array α) (node : Nat) (value : TensorValue α) :
    Except (Failure EvalError) (Array α) := do
  if value.shape = m.shape then
    let components ← Failure.ofFault (value.writeRowMajor m.components)
    let row ← Failure.ofFault (m.indices node)
    Failure.ofFault
      ((row.zip components.toList).foldlM (fun cs entry => writeAt cs entry.1 entry.2) coefficients)
  else throw (.refused (.kernelShape m.shape value.shape))

end NodeMap

end NodalAlgebra
