import NodalAlgebra.Scalar.Elementary
import NodalAlgebra.Size

/-!
# Binary floating-point scalars

Double and single precision numbers as scalars.
-/

namespace NodalAlgebra

instance natCastFloat : NatCast Float := ⟨Float.ofNat⟩

instance : Elementary Float where
  abs := Float.abs
  sin := Float.sin
  cos := Float.cos
  tan := Float.tan
  sqrt := Float.sqrt
  exp := Float.exp
  ln := Float.log
  sinh := Float.sinh
  cosh := Float.cosh
  tanh := Float.tanh
  asin := Float.asin
  acos := Float.acos
  atan := Float.atan
  pow := Float.pow
  atan2 := Float.atan2

instance : Pivoting Float where
  isZero x := x == 0
  exceeds x y := y.abs < x.abs

instance : ByteSize Float := ⟨8, by decide⟩

instance natCastFloat32 : NatCast Float32 := ⟨Float32.ofNat⟩

instance : Elementary Float32 where
  abs := Float32.abs
  sin := Float32.sin
  cos := Float32.cos
  tan := Float32.tan
  sqrt := Float32.sqrt
  exp := Float32.exp
  ln := Float32.log
  sinh := Float32.sinh
  cosh := Float32.cosh
  tanh := Float32.tanh
  asin := Float32.asin
  acos := Float32.acos
  atan := Float32.atan
  pow := Float32.pow
  atan2 := Float32.atan2

instance : Pivoting Float32 where
  isZero x := x == 0
  exceeds x y := y.abs < x.abs

instance : ByteSize Float32 := ⟨4, by decide⟩

end NodalAlgebra
