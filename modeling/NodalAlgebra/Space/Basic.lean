import NodalAlgebra.Size
import NodalAlgebra.Space.Error
import NodalAlgebra.Space.Nodes

/-!
# Function spaces

A function space is a finite element on a mesh. Its degrees of freedom are
numbered node by node: component `c` at node `n` of a space with `k` components
has number `n * k + c`. Each component of a vector or tensor space is a sub-space
that picks out its own degrees of freedom and belongs to the scalar element.
-/

namespace NodalAlgebra

/-- A finite element on a mesh, or one component of it. The element is defined on
the cells of the mesh, its nodes are known, and it has components. Their number is
that of a table, and the number of degrees of freedom is a size. -/
structure FunctionSpace (α : Type) where
  mesh : Mesh α
  /-- The element of the whole space. -/
  whole : FiniteElement
  /-- The component that a sub-space stands for; none for a whole space. -/
  component : Option Nat
  placement : NodePlacement
  cell_eq : whole.cell = mesh.cell
  placement_eq : whole.scalarElement.placement? = some placement
  counted : whole.valueShape.componentCount? = .ok whole.componentCount
  components_pos : 0 < whole.componentCount
  components_le : whole.componentCount ≤ Size.maxEntries
  dim_lt : mesh.nodeCount placement * whole.componentCount < Size.limit
  component_lt : ∀ c ∈ component, whole.isScalar = false ∧ c < whole.componentCount

namespace FunctionSpace

variable {α : Type}

/-! ## Construction -/

/-- The whole space of an element on a mesh. Of several reasons against it the
first counts: other cells, unknown nodes, too many components to be counted, no
components, too many degrees of freedom, and too many components for a table. -/
def build (M : Mesh α) (e : FiniteElement) : Except (Failure SpaceError) (FunctionSpace α) :=
  if hcell : e.cell = M.cell then
    match hplace : e.scalarElement.placement? with
    | none => .error (.refused (.unsupportedElement e.scalarElement))
    | some p =>
      match hcount : e.valueShape.componentCount? with
      | .error cause => .error (.fault cause)
      | .ok n =>
        have heq : n = e.componentCount := FiniteElement.componentCount_eq hcount
        if hpos : n = 0 then .error (.refused (.noComponents e))
        else if hdim : Size.limit ≤ M.nodeCount p * n then .error (.fault .overflow)
        else if htable : Size.maxEntries < n then .error (.fault .capacity)
        else
          .ok
            { mesh := M
              whole := e
              component := none
              placement := p
              cell_eq := hcell
              placement_eq := hplace
              counted := heq ▸ hcount
              components_pos := heq ▸ Nat.pos_of_ne_zero hpos
              components_le := heq ▸ Nat.le_of_not_lt htable
              dim_lt := heq ▸ Nat.lt_of_not_le hdim
              component_lt := by simp }
  else .error (.refused (.cellMismatch e.cell M.cell))

/-! ## Layout -/

/-- The element that a space reports: a sub-space has the scalar element. -/
def element (V : FunctionSpace α) : FiniteElement :=
  match V.component with
  | none => V.whole
  | some _ => .scalar V.whole.scalarElement

/-- Whether a space is a component of another one. -/
def isSubSpace (V : FunctionSpace α) : Bool := V.component.isSome

/-- The number of nodes of the scalar element. -/
def nodeCount (V : FunctionSpace α) : Nat := V.mesh.nodeCount V.placement

/-- The number of degrees of freedom of a node of the whole space. -/
def stride (V : FunctionSpace α) : Nat := V.whole.componentCount

/-- The number of degrees of freedom of the whole space. -/
def dim (V : FunctionSpace α) : Nat := V.nodeCount * V.stride

/-- The coordinates of the nodes in order. -/
def nodePoints [Zero α] [Add α] [Div α] [NatCast α] (V : FunctionSpace α) : List (Array α) :=
  V.mesh.nodePoints V.placement

/-- The number of sub-spaces. -/
def subCount (V : FunctionSpace α) : Nat :=
  if V.isSubSpace || V.whole.isScalar then 0 else V.stride

/-- The sub-space of a component. -/
def sub (V : FunctionSpace α) (c : Fin V.subCount) : FunctionSpace α :=
  { V with
    component := some c
    component_lt := by
      intro d hd
      obtain rfl : c = d := by simpa using hd
      have h := c.isLt
      unfold subCount at h
      split at h
      · omega
      · simp_all [stride] }

/-- The sub-space of a component, if there is one. -/
def sub? (V : FunctionSpace α) (c : Nat) : Option (FunctionSpace α) :=
  if h : c < V.subCount then some (V.sub ⟨c, h⟩) else none

/-- The sub-spaces in the order of their components. -/
def subSpaces (V : FunctionSpace α) : List (FunctionSpace α) :=
  (List.finRange V.subCount).map V.sub

/-- The degree of freedom of a node, in a space with one for each node. -/
def dofOfNode (V : FunctionSpace α) (node : Nat) : Nat :=
  node * V.stride + V.component.getD 0

/-- The degrees of freedom of a space in order. -/
def dofs (V : FunctionSpace α) : List Nat :=
  if V.subCount = 0 then (List.range V.nodeCount).map V.dofOfNode else List.range V.dim

/-! ## Comparison -/

/-- Whether two spaces have the same element on the same mesh. -/
def isCompatible (V W : FunctionSpace α) : Bool :=
  V.element == W.element && V.mesh.id == W.mesh.id

end FunctionSpace

end NodalAlgebra
