import NodalAlgebra.Shape
import NodalAlgebra.Mesh.Cell

/-!
# Finite elements

Descriptions of finite elements. A scalar element is a family of Lagrange
elements, a degree and a cell; vector and tensor elements repeat one scalar
element for each component of their values.
-/

namespace NodalAlgebra

/-- A family of scalar elements. -/
inductive ElementFamily where
  /-- Continuous across cells. -/
  | lagrange
  /-- Discontinuous across cells. -/
  | discontinuousLagrange
deriving DecidableEq

/-- The short name of a family. -/
def ElementFamily.text : ElementFamily → String
  | .lagrange => "CG"
  | .discontinuousLagrange => "DG"

/-- An element with numbers as its values. -/
structure ScalarElement where
  family : ElementFamily
  degree : Nat
  cell : CellType
deriving DecidableEq

/-- The text of a scalar element: `CG1(triangle)`. -/
def ScalarElement.text (e : ScalarElement) : String :=
  s!"{e.family.text}{e.degree.repr}({e.cell.text})"

/-- An element with values of rank at most two. -/
inductive FiniteElement where
  | scalar (element : ScalarElement)
  | vector (sub : ScalarElement) (dim : Nat)
  | tensor (sub : ScalarElement) (rows cols : Nat)
deriving DecidableEq

namespace FiniteElement

/-- The element for values of a shape of rank at most two. -/
def ofShape? (sub : ScalarElement) (s : Shape) : Option FiniteElement :=
  match s.dims with
  | [] => some (.scalar sub)
  | [n] => some (.vector sub n)
  | [r, c] => some (.tensor sub r c)
  | _ => none

/-- The shape of the values. -/
def valueShape : FiniteElement → Shape
  | .scalar _ => .scalar
  | .vector _ n => .vector n
  | .tensor _ r c => .matrix r c

/-- The element of every component. -/
def scalarElement : FiniteElement → ScalarElement
  | .scalar e => e
  | .vector e _ => e
  | .tensor e _ _ => e

/-- The cell of an element. -/
def cell (e : FiniteElement) : CellType := e.scalarElement.cell

/-- Whether the values are numbers. -/
def isScalar : FiniteElement → Bool
  | .scalar _ => true
  | _ => false

/-- The number of components of a value. -/
def componentCount : FiniteElement → Nat
  | .scalar _ => 1
  | .vector _ n => n
  | .tensor _ r c => r * c

/-- The count of an element's components is that of its values' shape. -/
theorem componentCount_eq {e : FiniteElement} {n : Nat}
    (h : e.valueShape.componentCount? = .ok n) : n = e.componentCount := by
  rw [← Shape.componentCount_eq h]
  cases e <;> simp [valueShape, componentCount, Shape.componentCount, Shape.scalar, Shape.vector,
    Shape.matrix]

theorem componentCount_of_isScalar {e : FiniteElement} (h : e.isScalar = true) :
    e.componentCount = 1 := by
  cases e <;> simp_all [isScalar, componentCount]

/-- The number of sub-elements, one for each component, which has to be a size. A
scalar element has none. -/
def subCount? : FiniteElement → Except Fault Nat
  | .scalar _ => .ok 0
  | e => e.valueShape.componentCount?

/-- The sub-elements. -/
def subElements? (e : FiniteElement) : Except Fault (List ScalarElement) := do
  let count ← e.subCount?
  let length ← Size.entries? count
  return List.replicate length e.scalarElement

/-- The text of an element: `Vector(CG1(triangle), 2)`, `Tensor(DG0(triangle), (2, 2))`. -/
def text : FiniteElement → String
  | .scalar e => e.text
  | .vector e n => s!"Vector({e.text}, {n})"
  | .tensor e r c => s!"Tensor({e.text}, ({r}, {c}))"

end FiniteElement

end NodalAlgebra
