import NodalAlgebra.Shape
import NodalAlgebra.Dense.Basic

/-!
# Tensor values

The value of a function at one node: a number, a vector or a matrix. A value is
written as its components in row-major order, and `read?` takes the components
apart again by a shape of rank at most two: it reads exactly what was written
(`read?_eq_some`).
-/

namespace NodalAlgebra

/-- A value of rank at most two. -/
inductive TensorValue (α : Type) where
  | scalar (x : α)
  | vector {n : Nat} (v : Vector α n)
  | matrix {r c : Nat} (a : DenseMatrix r c α)

namespace TensorValue

variable {α : Type}

/-- The dimensions of a value. -/
def shape : TensorValue α → Shape
  | .scalar _ => .scalar
  | .vector (n := n) _ => .vector n
  | .matrix (r := r) (c := c) _ => .matrix r c

/-- The components in row-major order. -/
def components : TensorValue α → Array α
  | .scalar x => #[x]
  | .vector v => v.toArray
  | .matrix a => a.entries.toArray

/-- Values are equal if their shapes are and their components are pairwise. -/
def beq [BEq α] (a b : TensorValue α) : Bool :=
  a.shape == b.shape && a.components == b.components

instance [BEq α] : BEq (TensorValue α) := ⟨beq⟩

/-! ## Component by component -/

/-- The value of the same shape with `f` applied to every component. -/
def map (f : α → α) : TensorValue α → TensorValue α
  | .scalar x => .scalar (f x)
  | .vector v => .vector (v.map f)
  | .matrix a => .matrix ⟨a.entries.map f⟩

/-- The value that combines each component of a value with the one at the same
place of another value. The shapes have to be equal. -/
def zipWith? (f : α → α → α) : TensorValue α → TensorValue α → Option (TensorValue α)
  | .scalar x, .scalar y => some (.scalar (f x y))
  | .vector (n := m) u, .vector (n := n) v =>
      if h : n = m then some (.vector (Vector.zipWith f u (v.cast h))) else none
  | .matrix (r := m) (c := p) a, .matrix (r := n) (c := q) b =>
      if h : n = m ∧ q = p then
        some (.matrix ⟨Vector.zipWith f a.entries (b.entries.cast (by rw [h.1, h.2]))⟩)
      else none
  | _, _ => none

@[simp] theorem shape_map (f : α → α) (a : TensorValue α) : (a.map f).shape = a.shape := by
  cases a <;> rfl

@[simp] theorem components_map (f : α → α) (a : TensorValue α) :
    (a.map f).components = a.components.map f := by
  cases a <;> simp [map, components]

/-! ## Row-major components -/

/-- The value with the given dimensions and components; none if the number of
components is another or the rank exceeds two. -/
def read? : List Nat → Array α → Option (TensorValue α)
  | [], values => if h : values.size = 1 then some (.scalar values[0]) else none
  | [n], values => if h : values.size = n then some (.vector ⟨values, h⟩) else none
  | [r, c], values =>
      if h : values.size = r * c then some (.matrix ⟨⟨values, h⟩⟩) else none
  | _, _ => none

/-- The value of the given shape and components. The number of components that
the shape asks for has to be a size. -/
def ofRowMajor? (s : Shape) (values : Array α) : Except Fault (Option (TensorValue α)) := do
  let count ← s.componentCount?
  return if values.size = count then read? s.dims values else none

/-- The components in row-major order, written into a buffer that has to have
their number as its length. -/
def writeRowMajor (a : TensorValue α) (length : Nat) : Except Fault (Array α) := do
  let count ← a.shape.componentCount?
  if length = count then return a.components else throw .lengthMismatch

/-! ## Reading what was written -/

theorem size_components (a : TensorValue α) : a.components.size = a.shape.componentCount := by
  cases a <;> simp [components, shape, Shape.componentCount, Shape.scalar, Shape.vector,
    Shape.matrix]

/-- Reading takes the components of exactly the values of the given dimensions. -/
theorem read?_eq_some {dims : List Nat} {values : Array α} {a : TensorValue α} :
    read? dims values = some a ↔ a.shape = ⟨dims⟩ ∧ a.components = values := by
  constructor
  · intro h
    match dims, h with
    | [], h =>
      simp only [read?, Option.dite_none_right_eq_some] at h
      obtain ⟨hsize, h⟩ := h
      cases h
      refine ⟨rfl, Array.ext (by simp [components, hsize]) fun i hi _ => ?_⟩
      obtain rfl : i = 0 := by simpa [components] using hi
      rfl
    | [n], h =>
      simp only [read?, Option.dite_none_right_eq_some] at h
      obtain ⟨_, h⟩ := h
      cases h
      exact ⟨rfl, rfl⟩
    | [r, c], h =>
      simp only [read?, Option.dite_none_right_eq_some] at h
      obtain ⟨_, h⟩ := h
      cases h
      exact ⟨rfl, rfl⟩
    | _ :: _ :: _ :: _, h => simp [read?] at h
  · rintro ⟨hshape, rfl⟩
    cases a with
    | scalar x => cases hshape; simp [read?, components]
    | vector v => cases hshape; simp [read?, components]
    | matrix a => cases hshape; simp [read?, components]

theorem read?_components (a : TensorValue α) : read? a.shape.dims a.components = some a :=
  read?_eq_some.2 ⟨rfl, rfl⟩

/-- A value is made of its components if the shape asks for their number. -/
theorem ofRowMajor?_eq_some {s : Shape} {values : Array α} {a : TensorValue α} :
    ofRowMajor? s values = .ok (some a) ↔
      s.componentCount? = .ok values.size ∧ a.shape = s ∧ a.components = values := by
  rw [ofRowMajor?, bind_eq_ok]
  constructor
  · rintro ⟨count, hcount, h⟩
    obtain ⟨rfl, hread⟩ := Option.ite_none_right_eq_some.1 (Except.ok.inj h)
    exact ⟨hcount, read?_eq_some.1 hread⟩
  · rintro ⟨hcount, h⟩
    exact ⟨values.size, hcount, congrArg Except.ok ((if_pos rfl).trans (read?_eq_some.2 h))⟩

/-- A value is known by its shape and its components. -/
theorem eq_of_components {a b : TensorValue α} (hshape : a.shape = b.shape)
    (hcomponents : a.components = b.components) : a = b := by
  have h := read?_components a
  rw [hshape, hcomponents, read?_components] at h
  exact (Option.some.inj h).symm

private theorem of_zipWith?_eq_some {f : α → α → α} {a b c : TensorValue α}
    (h : zipWith? f a b = some c) :
    b.shape = a.shape ∧ c.shape = a.shape
      ∧ c.components = Array.zipWith f a.components b.components := by
  cases a <;> cases b <;> simp only [zipWith?, Option.dite_none_right_eq_some, reduceCtorEq] at h
  · cases h
    simp [shape, components]
  · obtain ⟨rfl, h⟩ := h
    cases h
    simp [shape, components]
  · obtain ⟨⟨rfl, rfl⟩, h⟩ := h
    cases h
    simp [shape, components]

/-- Two values are combined exactly if they are of one shape. -/
theorem zipWith?_eq_some {f : α → α → α} {a b c : TensorValue α} :
    zipWith? f a b = some c ↔
      b.shape = a.shape ∧ c.shape = a.shape
        ∧ c.components = Array.zipWith f a.components b.components := by
  refine ⟨of_zipWith?_eq_some, fun ⟨hb, hc, h⟩ => ?_⟩
  have hsome : ∃ d, zipWith? f a b = some d := by
    cases a <;> cases b <;> cases hb <;> simp [zipWith?]
  obtain ⟨d, hd⟩ := hsome
  have hd' := of_zipWith?_eq_some hd
  rw [hd, eq_of_components (hd'.2.1.trans hc.symm) (hd'.2.2.trans h.symm)]

end TensorValue

end NodalAlgebra
