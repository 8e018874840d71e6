import NodalAlgebra.Dense.Basic

/-!
# Products of vectors and matrices

Contractions of vectors and matrices in a fixed order of evaluation, which
decides the rounding of inexact scalars. An inner product adds full blocks of
eight products in eight lanes, then the lanes in pairs, then the remaining
products. A matrix times a vector adds its columns from left to right, the first
one being the start of the sum. A product of two large matrices starts every entry
from zero instead; the choice shows in the sign of an entry that is zero.
-/

namespace NodalAlgebra

/-! ## Sums -/

/-- Eight running sums, one for each position in a block of eight terms. -/
structure Lanes (α : Type) where
  s0 : α
  s1 : α
  s2 : α
  s3 : α
  s4 : α
  s5 : α
  s6 : α
  s7 : α

namespace Lanes

variable {α : Type}

/-- Eight empty sums. -/
def zero [Zero α] : Lanes α := ⟨0, 0, 0, 0, 0, 0, 0, 0⟩

/-- Adds the full blocks at the front of a list lane by lane; the terms behind
the last full block are handed back. -/
def addBlocks [Add α] (s : Lanes α) : List α → Lanes α × List α
  | a :: b :: c :: d :: e :: f :: g :: h :: rest =>
      addBlocks ⟨s.s0 + a, s.s1 + b, s.s2 + c, s.s3 + d, s.s4 + e, s.s5 + f, s.s6 + g, s.s7 + h⟩
        rest
  | rest => (s, rest)

/-- Adds the lanes to a total, each with the lane four places on. -/
def addTo [Add α] (s : Lanes α) (total : α) : α :=
  total + (s.s0 + s.s4) + (s.s1 + s.s5) + (s.s2 + s.s6) + (s.s3 + s.s7)

end Lanes

/-- Adds a list of terms to a total in blocks of eight. -/
def blockSum {α : Type} [Zero α] [Add α] (total : α) (terms : List α) : α :=
  let (lanes, rest) := Lanes.zero.addBlocks terms
  rest.foldl (· + ·) (lanes.addTo total)

/-- The sum of a list of terms in which each further term is put in front. -/
def frontSum {α : Type} [Zero α] [Add α] : List α → α
  | [] => 0
  | first :: rest => rest.foldl (fun sum term => term + sum) first

/-- The sum of a list of terms, added to zero in order. -/
def orderedSum {α : Type} [Zero α] [Add α] (terms : List α) : α :=
  terms.foldl (· + ·) 0

namespace DenseMatrix

variable {α : Type} {m n p : Nat}

/-! ## Products -/

/-- The products of the components of two vectors at equal places. -/
def termwise [Mul α] (u v : Vector α n) : List α :=
  (List.finRange n).map fun i => u.get i * v.get i

/-- The inner product of two vectors. -/
def dot [Zero α] [Add α] [Mul α] (u v : Vector α n) : α :=
  blockSum 0 (termwise u v)

/-- The inner product of two matrices: that of their columns, added up from the
first column on. -/
def inner [Zero α] [Add α] [Mul α] (a b : DenseMatrix m n α) : α :=
  (List.finRange n).foldl (fun total j => blockSum total (termwise (a.col j) (b.col j))) 0

/-- The product of a matrix and a column vector. -/
def mulVec [Zero α] [Add α] [Mul α] (a : DenseMatrix m n α) (v : Vector α n) : Vector α m :=
  Vector.ofFn fun i => frontSum (termwise (a.row i) v)

/-- The product of a row vector and a matrix: the inner product with each column. -/
def vecMul [Zero α] [Add α] [Mul α] (u : Vector α m) (b : DenseMatrix m n α) : Vector α n :=
  Vector.ofFn fun j => dot (b.col j) u

/-- The number of rows, columns or terms up to which a matrix counts as small. -/
def smallSize : Nat := 5

/-- The entries of a product with `m` rows and `p` columns are sums of `n` terms. They
are started from zero if all three numbers are large. -/
def entrySum [Zero α] [Add α] (m n p : Nat) (terms : List α) : α :=
  if smallSize < m ∧ smallSize < n ∧ smallSize < p then orderedSum terms else frontSum terms

/-- The product of two matrices: each row of the first with each column of the
second. -/
def mul [Zero α] [Add α] [Mul α] (a : DenseMatrix m n α) (b : DenseMatrix n p α) :
    DenseMatrix m p α :=
  ofFn fun i k => entrySum m n p (termwise (a.row i) (b.col k))

/-- The tensor product of two vectors. -/
def outer [Mul α] (u : Vector α m) (v : Vector α n) : DenseMatrix m n α :=
  ofFn fun i j => u.get i * v.get j

/-- The cross product of two vectors in space. -/
def cross [Sub α] [Mul α] (u v : Vector α 3) : Vector α 3 :=
  #v[u[1] * v[2] - u[2] * v[1], u[2] * v[0] - u[0] * v[2], u[0] * v[1] - u[1] * v[0]]

end DenseMatrix

end NodalAlgebra
