/-!
# Scalars

What the library asks of a type of scalars, beyond the arithmetic operations
of the core classes: the elementary functions behind the componentwise
operators, and the two tests by which an elimination chooses its pivots.
-/

namespace NodalAlgebra

/-- The elementary functions on scalars. -/
class Elementary (α : Type) where
  abs : α → α
  sin : α → α
  cos : α → α
  tan : α → α
  sqrt : α → α
  exp : α → α
  /-- The natural logarithm. -/
  ln : α → α
  sinh : α → α
  cosh : α → α
  tanh : α → α
  asin : α → α
  acos : α → α
  atan : α → α
  /-- The first argument to the power of the second. -/
  pow : α → α → α
  /-- The angle of the point with ordinate and abscissa given in this order. -/
  atan2 : α → α → α

/-- The tests by which an elimination chooses and accepts a pivot. -/
class Pivoting (α : Type) where
  /-- A scalar that can not be divided by. -/
  isZero : α → Bool
  /-- The first scalar is strictly larger in magnitude than the second. -/
  exceeds : α → α → Bool

end NodalAlgebra
