import NodalAlgebra.Dense.Elimination

/-!
# Determinant and inverse

Closed formulas for small matrices and elimination for the others. The class
`LinearSolver` is what the rest of the library asks for; every type of scalars
with a test for pivots is an instance.
-/

namespace NodalAlgebra

/-- Determinants and inverses of square matrices. -/
class LinearSolver (α : Type) where
  determinant : {n : Nat} → DenseMatrix n n α → α
  /-- The inverse, and none of a matrix found singular. -/
  inverse? : {n : Nat} → DenseMatrix n n α → Option (DenseMatrix n n α)

namespace DenseMatrix

variable {α : Type} {n : Nat}

/-! ## Two and three rows -/

/-- The determinant of a matrix with two rows. -/
def determinant₂ [Sub α] [Mul α] (a : DenseMatrix 2 2 α) : α :=
  a.get 0 0 * a.get 1 1 - a.get 1 0 * a.get 0 1

/-- The determinant of what is left of a matrix with three rows without its
first row and column `j`. -/
def minor₃ [Sub α] [Mul α] (a : DenseMatrix 3 3 α) (j : Fin 3) : α :=
  match j with
  | 0 => a.get 1 1 * a.get 2 2 - a.get 2 1 * a.get 1 2
  | 1 => a.get 1 0 * a.get 2 2 - a.get 2 0 * a.get 1 2
  | 2 => a.get 1 0 * a.get 2 1 - a.get 2 0 * a.get 1 1

/-- The determinant of a matrix with three rows, by its first row. -/
def determinant₃ [Add α] [Sub α] [Mul α] (a : DenseMatrix 3 3 α) : α :=
  a.get 0 0 * a.minor₃ 0 - a.get 0 1 * a.minor₃ 1 + a.get 0 2 * a.minor₃ 2

/-- The inverse of a matrix with two rows. -/
def inverse₂? [Sub α] [Neg α] [Mul α] [Div α] [Pivoting α] (a : DenseMatrix 2 2 α) :
    Option (DenseMatrix 2 2 α) :=
  let d := a.determinant₂
  if Pivoting.isZero d then none
  else some ⟨#v[a.get 1 1 / d, -a.get 0 1 / d, -a.get 1 0 / d, a.get 0 0 / d]⟩

/-- The inverse of a matrix with three rows: the transposed cofactors over the
determinant. -/
def inverse₃? [Add α] [Sub α] [Neg α] [Mul α] [Div α] [Pivoting α] (a : DenseMatrix 3 3 α) :
    Option (DenseMatrix 3 3 α) :=
  let d := a.determinant₃
  if Pivoting.isZero d then none
  else some ⟨#v[
    a.minor₃ 0 / d,
    (a.get 0 2 * a.get 2 1 - a.get 2 2 * a.get 0 1) / d,
    (a.get 0 1 * a.get 1 2 - a.get 1 1 * a.get 0 2) / d,
    -a.minor₃ 1 / d,
    (a.get 0 0 * a.get 2 2 - a.get 2 0 * a.get 0 2) / d,
    (a.get 0 2 * a.get 1 0 - a.get 1 2 * a.get 0 0) / d,
    a.minor₃ 2 / d,
    (a.get 0 1 * a.get 2 0 - a.get 2 1 * a.get 0 0) / d,
    (a.get 0 0 * a.get 1 1 - a.get 1 0 * a.get 0 1) / d]⟩

/-! ## Four rows -/

/-- The three indices below four other than the given one, in order. -/
def others (k : Fin 4) : Fin 3 → Fin 4 := fun i => if i.castSucc < k then i.castSucc else i.succ

/-- The cofactor of entry `(j, i)` of a matrix with four rows: the determinant of
the rows other than `j` and the columns other than `i`, negated term by term
where `i + j` is odd. -/
def cofactor₄ [Add α] [Neg α] [Mul α] (a : DenseMatrix 4 4 α) (i j : Fin 4) : α :=
  let entry (r c : Fin 3) : α := a.get (others j r) (others i c)
  let plus (x : α) : α := if (i.val + j.val) % 2 = 0 then x else -x
  let minus (x : α) : α := if (i.val + j.val) % 2 = 0 then -x else x
  plus (entry 0 0) * entry 1 1 * entry 2 2
    + minus (entry 0 0) * entry 2 1 * entry 1 2
    + minus (entry 0 1) * entry 1 0 * entry 2 2
    + plus (entry 0 1) * entry 2 0 * entry 1 2
    + plus (entry 0 2) * entry 1 0 * entry 2 1
    + minus (entry 0 2) * entry 2 0 * entry 1 1

/-- The inverse of a matrix with four rows: the cofactors times the reciprocal of
the determinant by the first column. -/
def inverse₄? [One α] [Add α] [Neg α] [Mul α] [Div α] [Pivoting α] (a : DenseMatrix 4 4 α) :
    Option (DenseMatrix 4 4 α) :=
  let d := a.get 0 0 * a.cofactor₄ 0 0 + a.get 1 0 * a.cofactor₄ 0 1
    + a.get 2 0 * a.cofactor₄ 0 2 + a.get 3 0 * a.cofactor₄ 0 3
  if Pivoting.isZero d then none
  else
    let scale := 1 / d
    some (ofFn fun i j => a.cofactor₄ i j * scale)

/-! ## Any size -/

/-- The determinant: by formula up to three rows, by elimination from four on. -/
def determinant [One α] [Add α] [Sub α] [Neg α] [Mul α] [Div α] [Pivoting α] :
    {n : Nat} → DenseMatrix n n α → α
  | 0, _ => 1
  | 1, a => a.get 0 0
  | 2, a => a.determinant₂
  | 3, a => a.determinant₃
  | _ + 4, a => a.determinantByElimination

/-- The inverse: by formula up to four rows, by elimination from five on. A zero
determinant or pivot makes a matrix singular. -/
def inverse? [Zero α] [One α] [Add α] [Sub α] [Neg α] [Mul α] [Div α] [Pivoting α] :
    {n : Nat} → DenseMatrix n n α → Option (DenseMatrix n n α)
  | 0, a => some a
  | 1, a => if Pivoting.isZero (a.get 0 0) then none else some ⟨#v[1 / a.get 0 0]⟩
  | 2, a => a.inverse₂?
  | 3, a => a.inverse₃?
  | 4, a => a.inverse₄?
  | _ + 5, a => a.inverseByElimination?

instance [Zero α] [One α] [Add α] [Sub α] [Neg α] [Mul α] [Div α] [Pivoting α] :
    LinearSolver α where
  determinant := determinant
  inverse? := inverse?

end DenseMatrix

end NodalAlgebra
