import NodalAlgebra.Size

/-!
# Value shapes

The shape of the value that a function takes at a point: the list of its
dimensions. A scalar has no dimension, a vector one and a matrix two. Shapes of
higher rank can be written down, but no function space holds their values.
-/

namespace NodalAlgebra

/-- The dimensions of a value. -/
structure Shape where
  dims : List Nat
deriving DecidableEq

namespace Shape

/-- The shape of a number. -/
def scalar : Shape := ⟨[]⟩

/-- The shape of a vector with `n` components. -/
def vector (n : Nat) : Shape := ⟨[n]⟩

/-- The shape of a matrix. -/
def matrix (rows cols : Nat) : Shape := ⟨[rows, cols]⟩

/-- The number of dimensions. -/
def rank (s : Shape) : Nat := s.dims.length

/-- A scalar shape has no dimension. -/
def isScalar (s : Shape) : Bool := s.dims.isEmpty

/-- A square shape is that of a matrix with as many rows as columns. -/
def isSquare (s : Shape) : Bool :=
  match s.dims with
  | [r, c] => r == c
  | _ => false

/-- The number of components of a value. -/
def componentCount (s : Shape) : Nat := s.dims.foldl (· * ·) 1

/-- The number of components of a value, which has to be a size. -/
def componentCount? (s : Shape) : Except Fault Nat := Size.product? s.dims

/-- The dimensions in parentheses: `()`, `(3)`, `(2, 3)`. -/
def text (s : Shape) : String :=
  "(" ++ ", ".intercalate (s.dims.map Nat.repr) ++ ")"

theorem product?_eq_foldl {sizes : List Nat} {a n : Nat}
    (h : sizes.foldlM Size.mul? a = .ok n) : sizes.foldl (· * ·) a = n := by
  induction sizes generalizing a with
  | nil => simpa [pure, Except.pure] using h
  | cons b rest ih =>
    rw [List.foldlM_cons, bind_eq_ok] at h
    obtain ⟨m, hm, h⟩ := h
    rw [List.foldl_cons, (Size.mul?_eq_ok.1 hm).2]
    exact ih h

/-- The checked count is the count. -/
theorem componentCount_eq {s : Shape} {n : Nat} (h : s.componentCount? = .ok n) :
    s.componentCount = n :=
  product?_eq_foldl h

@[simp] theorem isScalar_iff {s : Shape} : s.isScalar = true ↔ s = scalar := by
  obtain ⟨dims⟩ := s
  simp [isScalar, scalar]

theorem isSquare_iff {s : Shape} : s.isSquare = true ↔ ∃ n, s = matrix n n := by
  obtain ⟨dims⟩ := s
  constructor
  · intro h
    unfold isSquare at h
    split at h
    · rename_i r c hd
      exact ⟨r, by simp_all [matrix]⟩
    · cases h
  · rintro ⟨n, h⟩
    cases h
    simp [isSquare]

end Shape

end NodalAlgebra
