import NodalAlgebra.Element.Basic

/-!
# Errors of function spaces
-/

namespace NodalAlgebra

/-- Why there is no such space, or no such function in a space. -/
inductive SpaceError where
  /-- The element is defined on other cells than those of the mesh. -/
  | cellMismatch (element mesh : CellType)
  /-- The nodes of the element are not known. -/
  | unsupportedElement (element : ScalarElement)
  /-- A vector or tensor element has values without components. -/
  | noComponents (element : FiniteElement)
  /-- A function has another number of coefficients than its space asks for. -/
  | coefficientLength (expected actual : Nat)
  /-- A sub-space holds no functions of its own. -/
  | subSpace
deriving DecidableEq

/-- The wording of the reasons. -/
def SpaceError.message : SpaceError → String
  | .cellMismatch element mesh =>
      s!"Element defined on {element.text} cells, but mesh consists of {mesh.text} cells."
  | .unsupportedElement e => s!"No degree-of-freedom layout for element {e.text}."
  | .noComponents e => s!"Element {e.text} has no components."
  | .coefficientLength expected actual => s!"Expected {expected} coefficients, got {actual}."
  | .subSpace => "Cannot create a function on a sub-space."

end NodalAlgebra
