import NodalAlgebra.Size
import NodalAlgebra.Json
import NodalAlgebra.Element.Basic

/-!
# Elements as JSON

An element is written as an object with one member, whose key is the kind of the
element. Reading takes every spelling of the format: a scalar element may be an
array of its fields, a name may be the key of a null, and unknown members are
passed over. Sizes have to be written as natural numbers.
-/

namespace NodalAlgebra

/-! ## Names and sizes -/

namespace Json

/-- The name that a value stands for: a string, or the only key of an object that
holds a null. -/
def name? : Json → Option String
  | .string s => some s
  | .object [(key, .null)] => some key
  | _ => none

/-- The size that a value stands for. -/
def size? : Json → Option Nat
  | .natural n => if n < Size.limit then some n else none
  | _ => none

/-- The sizes that the items of an array stand for. -/
def sizes? : Json → Option (List Nat)
  | .array items => items.mapM size?
  | _ => none

end Json

/-- A shape is written as the array of its dimensions. -/
def Shape.ofJson? (j : Json) : Option Shape := j.sizes?.map Shape.mk

namespace CellType

/-- The name that stands for a cell. -/
def tag : CellType → String
  | .interval => "Interval"
  | .triangle => "Triangle"
  | .quadrilateral => "Quadrilateral"
  | .tetrahedron => "Tetrahedron"
  | .hexahedron => "Hexahedron"

/-- The cell of a name. -/
def ofTag? (s : String) : Option CellType :=
  [interval, triangle, quadrilateral, tetrahedron, hexahedron].find? (·.tag == s)

/-- Reads a cell. -/
def ofJson? (j : Json) : Option CellType := j.name?.bind ofTag?

end CellType

namespace ElementFamily

/-- The name that stands for a family. -/
def tag : ElementFamily → String
  | .lagrange => "Lagrange"
  | .discontinuousLagrange => "DiscontinuousLagrange"

/-- The family of a name. -/
def ofTag? (s : String) : Option ElementFamily :=
  [lagrange, discontinuousLagrange].find? (·.tag == s)

/-- Reads a family. -/
def ofJson? (j : Json) : Option ElementFamily := j.name?.bind ofTag?

end ElementFamily

namespace ScalarElement

/-- Writes a scalar element. -/
def toJson (e : ScalarElement) : Json :=
  .object [("family", .string e.family.tag), ("degree", .natural e.degree),
    ("cell", .string e.cell.tag)]

/-- The scalar element with the given fields. -/
def ofFields? (family degree cell : Json) : Option ScalarElement := do
  return ⟨← ElementFamily.ofJson? family, ← degree.size?, ← CellType.ofJson? cell⟩

/-- Reads a scalar element, from an object or from the array of its fields. -/
def ofJson? : Json → Option ScalarElement
  | .array [family, degree, cell] => ofFields? family degree cell
  | .object members => do
      ofFields? (← Json.member? "family" members) (← Json.member? "degree" members)
        (← Json.member? "cell" members)
  | _ => none

end ScalarElement

namespace FiniteElement

/-- Writes an element. -/
def toJson : FiniteElement → Json
  | .scalar e => .object [("Scalar", e.toJson)]
  | .vector e n => .object [("Vector", .object [("sub", e.toJson), ("dim", .natural n)])]
  | .tensor e r c =>
      .object [("Tensor", .object [("sub", e.toJson), ("shape", .array [.natural r, .natural c])])]

/-- The element of a kind with the given content. -/
def ofContent? (kind : String) (content : Json) : Option FiniteElement :=
  match kind, content with
  | "Scalar", j => (ScalarElement.ofJson? j).map .scalar
  | "Vector", .object members => do
      let sub ← ScalarElement.ofJson? (← Json.member? "sub" members)
      return .vector sub (← (← Json.member? "dim" members).size?)
  | "Tensor", .object members => do
      let sub ← ScalarElement.ofJson? (← Json.member? "sub" members)
      match ← (← Json.member? "shape" members).sizes? with
      | [r, c] => return .tensor sub r c
      | _ => none
  | _, _ => none

/-- Reads an element. -/
def ofJson? : Json → Option FiniteElement
  | .object [(kind, content)] => ofContent? kind content
  | _ => none

end FiniteElement

end NodalAlgebra
