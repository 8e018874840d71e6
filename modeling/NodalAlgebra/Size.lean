import NodalAlgebra.Outcome

/-!
# Sizes

Counts and indices are natural numbers below `Size.limit`, the number of values
of a machine word. Arithmetic on them is checked step by step, so a product
overflows as soon as one partial product does, even if a later factor is zero.
A table takes fewer than `Size.byteLimit` bytes. Where its entries are scalars the bytes are
counted (`Size.table?`). Where they are records, as the sub-spaces of a space are, the bytes of
an entry are a matter of layout, and `Size.maxEntries` stands for the largest length
(`Size.entries?`).
-/

namespace NodalAlgebra.Size

/-- One more than the largest size. -/
def limit : Nat := 0x10000000000000000

/-- The largest length of a table of records: of sub-spaces, of sub-elements, or of the vertices
of a grid of intervals. It stands for a limit that depends on the layout of an entry in memory.
Tables of scalars have the limit of `table?`. -/
def maxEntries : Nat := 0x100000000000000

/-- The number as a size. -/
def ofNat? (n : Nat) : Except Fault Nat :=
  if n < limit then .ok n else .error .overflow

/-- The sum of two sizes. -/
def add? (a b : Nat) : Except Fault Nat := ofNat? (a + b)

/-- The product of two sizes. -/
def mul? (a b : Nat) : Except Fault Nat := ofNat? (a * b)

/-- The product of a list of sizes, multiplied from the left. -/
def product? (sizes : List Nat) : Except Fault Nat :=
  sizes.foldlM mul? 1

/-- The number as the length of a table of records. -/
def entries? (n : Nat) : Except Fault Nat :=
  if n ≤ maxEntries then .ok n else .error .capacity

/-- No table has as many bytes. -/
def byteLimit : Nat := 0x8000000000000000

/-- The number as the length of a table whose entries take a number of bytes each. -/
def table? (bytes n : Nat) : Except Fault Nat :=
  if n * bytes < byteLimit then .ok n else .error .capacity

theorem ofNat?_eq_ok {n m : Nat} : ofNat? n = .ok m ↔ n < limit ∧ n = m := by
  by_cases h : n < limit <;> simp [ofNat?, h]

theorem mul?_eq_ok {a b m : Nat} : mul? a b = .ok m ↔ a * b < limit ∧ a * b = m :=
  ofNat?_eq_ok

theorem add?_eq_ok {a b m : Nat} : add? a b = .ok m ↔ a + b < limit ∧ a + b = m :=
  ofNat?_eq_ok

theorem table?_eq_ok {bytes n m : Nat} :
    table? bytes n = .ok m ↔ n * bytes < byteLimit ∧ n = m := by
  by_cases h : n * bytes < byteLimit <;> simp [table?, h]

theorem product?_singleton_eq_ok {n m : Nat} : product? [n] = .ok m ↔ n < limit ∧ n = m := by
  simp [product?, bind_eq_ok, mul?_eq_ok, pure, Except.pure]

theorem product?_pair_eq_ok {a b m : Nat} :
    product? [a, b] = .ok m ↔ a < limit ∧ a * b < limit ∧ a * b = m := by
  simp [product?, bind_eq_ok, mul?_eq_ok, pure, Except.pure, and_assoc]

end NodalAlgebra.Size

namespace NodalAlgebra

/-- The values of a type take a number of bytes each, few enough for a table of one. -/
class ByteSize (α : Type) where
  bytes : Nat
  bytes_lt : bytes < Size.byteLimit

end NodalAlgebra
