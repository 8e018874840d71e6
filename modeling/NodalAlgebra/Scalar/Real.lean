import Mathlib.Analysis.SpecialFunctions.Complex.Arg
import Mathlib.Analysis.SpecialFunctions.Pow.Real
import Mathlib.Analysis.SpecialFunctions.Trigonometric.Arctan
import Mathlib.Analysis.SpecialFunctions.Trigonometric.Inverse
import NodalAlgebra.Scalar.Elementary

/-!
# Real scalars

The real numbers as scalars, for what holds without rounding.
-/

namespace NodalAlgebra

noncomputable instance : Elementary ℝ where
  abs x := |x|
  sin := Real.sin
  cos := Real.cos
  tan := Real.tan
  sqrt := Real.sqrt
  exp := Real.exp
  ln := Real.log
  sinh := Real.sinh
  cosh := Real.cosh
  tanh := Real.tanh
  asin := Real.arcsin
  acos := Real.arccos
  atan := Real.arctan
  pow x y := x ^ y
  atan2 y x := Complex.arg ⟨x, y⟩

open Classical in
noncomputable instance : Pivoting ℝ where
  isZero x := decide (x = 0)
  exceeds x y := decide (|y| < |x|)

/-- Of the real numbers only zero can not be divided by. -/
theorem isZero_real {x : ℝ} : Pivoting.isZero x = true ↔ x = 0 := by
  simp [Pivoting.isZero]

end NodalAlgebra
