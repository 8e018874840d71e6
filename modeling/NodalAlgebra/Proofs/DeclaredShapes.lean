import NodalAlgebra.Expr.Kind
import NodalAlgebra.Proofs.Agreement
import NodalAlgebra.Proofs.Tree

/-!
# Spaces of declared shapes

On a mesh of its cells, a scalar element with known nodes has a space for the values of a
shape exactly if the shape has rank at most two, has components, and fits into a machine
(`Shape.Fits`): `exists_ofShape_iff`. Next to a space, on the same mesh and for the same
scalar element, there is such a space under the same conditions (`exists_ofShape`), and what
stands against it otherwise is said in `ofShape_eq_error`.
-/

namespace NodalAlgebra

/-! ## Sizes of shapes -/

namespace Shape

/-- No dimension is zero. -/
def Positive (s : Shape) : Prop := ∀ d ∈ s.dims, 0 < d

/-- The components of a value are counted by a size, and so are the components of one value
for each of a number of nodes; and a table of sub-spaces has an entry for each component
(`Size.maxEntries`). -/
structure Fits (s : Shape) (nodes : Nat) : Prop where
  counted : s.componentCount? = .ok s.componentCount
  dim_lt : nodes * s.componentCount < Size.limit
  components_le : s.componentCount ≤ Size.maxEntries

private theorem foldl_mul_pos {dims : List Nat} (h : ∀ d ∈ dims, 0 < d) :
    ∀ {a : Nat}, 0 < a → 0 < dims.foldl (· * ·) a := by
  induction dims with
  | nil => exact fun ha => ha
  | cons d dims ih =>
      intro a ha
      exact ih (fun x hx => h x (by simp [hx])) (Nat.mul_pos ha (h d (by simp)))

theorem Positive.componentCount_pos {s : Shape} (h : s.Positive) : 0 < s.componentCount :=
  foldl_mul_pos h Nat.one_pos

/-- Components are not counted because their number is no size. -/
theorem overflow_of_componentCount? {s : Shape} {cause : Fault}
    (h : s.componentCount? = .error cause) : cause = .overflow := by
  have hmul : ∀ (dims : List Nat) (a : Nat), dims.foldlM Size.mul? a = .error cause →
      cause = .overflow := by
    intro dims
    induction dims with
    | nil => exact fun _ h => nomatch h
    | cons d dims ih =>
        intro a h
        rw [List.foldlM_cons, bind_eq_error] at h
        rcases h with h | ⟨b, -, h⟩
        · unfold Size.mul? Size.ofNat? at h
          split at h
          · cases h
          · cases h
            rfl
        · exact ih b h
  exact hmul s.dims 1 h

/-- A shape without components has a zero dimension. -/
theorem zero_mem_dims {s : Shape} (h : s.componentCount = 0) : 0 ∈ s.dims := by
  by_contra hzero
  have hpos : s.Positive := fun d hd => Nat.pos_of_ne_zero fun h => hzero (h ▸ hd)
  exact absurd h (Nat.ne_of_gt hpos.componentCount_pos)

end Shape

theorem FiniteElement.positive_valueShape {e : FiniteElement} (h : 0 < e.componentCount) :
    e.valueShape.Positive := by
  intro d hd
  cases e with
  | scalar sub => simp [valueShape, Shape.scalar] at hd
  | vector sub n =>
      obtain rfl : d = n := by simpa [valueShape, Shape.vector] using hd
      exact h
  | tensor sub r c =>
      have hr : 0 < r := Nat.pos_of_mul_pos_right h
      have hc : 0 < c := Nat.pos_of_mul_pos_left h
      rcases (by simpa [valueShape, Shape.matrix] using hd : d = r ∨ d = c) with rfl | rfl
      · exact hr
      · exact hc

namespace FunctionSpace

variable {α : Type}

/-! ## The space of a shape -/

/-- The values of a space fit. -/
theorem fits (V : FunctionSpace α) : V.whole.valueShape.Fits V.nodeCount where
  counted := by rw [V.counted, FiniteElement.componentCount_valueShape]
  dim_lt := by rw [FiniteElement.componentCount_valueShape]; exact V.dim_lt
  components_le := by rw [FiniteElement.componentCount_valueShape]; exact V.components_le

section

variable {M : Mesh α} {e : ScalarElement} {p : NodePlacement} {s : Shape} {W : FunctionSpace α}

/-- The nodes of the space of a shape are those of its scalar element on the mesh. -/
theorem placement_of_ofShape (hp : e.placement? = some p) (h : ofShape e s M = .ok W) :
    W.mesh = M ∧ W.placement = p := by
  obtain ⟨hmesh, rfl, -, -⟩ := ofShape_eq_ok.1 h
  exact ⟨hmesh, Option.some.inj (W.placement_eq.symm.trans hp)⟩

theorem nodeCount_of_ofShape (hp : e.placement? = some p) (h : ofShape e s M = .ok W) :
    W.nodeCount = M.nodeCount p := by
  obtain ⟨hmesh, hplace⟩ := placement_of_ofShape hp h
  rw [nodeCount, hmesh, hplace]

theorem nodePoints_of_ofShape [Zero α] [Add α] [Div α] [NatCast α]
    (hp : e.placement? = some p) (h : ofShape e s M = .ok W) :
    W.nodePoints = M.nodePoints p := by
  obtain ⟨hmesh, hplace⟩ := placement_of_ofShape hp h
  rw [nodePoints, hmesh, hplace]

end

/-- On a mesh of its cells, a scalar element with known nodes has a space for the shapes of
rank at most two that have components and fit, and for no others. -/
theorem exists_ofShape_iff {M : Mesh α} {e : ScalarElement} {p : NodePlacement}
    (hcell : e.cell = M.cell) (hp : e.placement? = some p) {s : Shape} :
    (∃ W, ofShape e s M = .ok W) ↔
      s.rank ≤ 2 ∧ 0 < s.componentCount ∧ s.Fits (M.nodeCount p) := by
  constructor
  · rintro ⟨W, hW⟩
    obtain ⟨rfl, rfl⟩ := placement_of_ofShape hp hW
    obtain ⟨-, -, rfl, -⟩ := ofShape_eq_ok.1 hW
    refine ⟨FiniteElement.rank_valueShape_le _, ?_, W.fits⟩
    rw [FiniteElement.componentCount_valueShape]
    exact W.components_pos
  · rintro ⟨hrank, hpos, hfits⟩
    obtain ⟨element, hshape⟩ : ∃ element, FiniteElement.ofShape? e s = some element := by
      rw [← Option.ne_none_iff_exists', Ne, FiniteElement.ofShape?_eq_none]
      exact Nat.not_lt.2 hrank
    obtain ⟨rfl, rfl⟩ := FiniteElement.ofShape?_eq_some.1 hshape
    have hcount := element.componentCount_valueShape
    let W : FunctionSpace α :=
      { mesh := M
        whole := element
        component := none
        placement := p
        cell_eq := hcell
        placement_eq := hp
        counted := by rw [hfits.counted, hcount]
        components_pos := hcount ▸ hpos
        components_le := hcount ▸ hfits.components_le
        dim_lt := hcount ▸ hfits.dim_lt
        component_lt := by simp }
    exact ⟨W, ofShape_eq_ok.2 ⟨rfl, rfl, rfl, rfl⟩⟩

/-- A shape of rank at most two that has components and fits has a space next to
every space. -/
theorem exists_ofShape {V : FunctionSpace α} {s : Shape} (hrank : s.rank ≤ 2)
    (hpos : 0 < s.componentCount) (hfits : s.Fits V.nodeCount) :
    ∃ W, ofShape V.whole.scalarElement s V.mesh = .ok W :=
  (exists_ofShape_iff V.cell_eq V.placement_eq).2 ⟨hrank, hpos, hfits⟩

/-- A shape has no space next to a space because its rank is too high, because it
has no components, or because a size or a table is too small for its components. -/
theorem ofShape_eq_error {V : FunctionSpace α} {s : Shape} {x : Failure EvalError}
    (h : ofShape V.whole.scalarElement s V.mesh = .error x) :
    (x = .refused (.unsupportedRank s) ∧ 2 < s.rank)
      ∨ (∃ e, x = .refused (.space (.noComponents e)) ∧ e.valueShape = s ∧ s.componentCount = 0)
      ∨ (x = .fault .overflow ∧ (s.componentCount? = .error .overflow
        ∨ Size.limit ≤ V.nodeCount * s.componentCount))
      ∨ (x = .fault .capacity ∧ Size.maxEntries < s.componentCount) := by
  unfold ofShape at h
  split at h
  · rename_i hshape
    cases h
    exact .inl ⟨rfl, FiniteElement.ofShape?_eq_none.1 hshape⟩
  · rename_i element hshape
    right
    obtain ⟨helement, rfl⟩ := FiniteElement.ofShape?_eq_some.1 hshape
    have hcell : element.cell = V.mesh.cell := by
      rw [FiniteElement.cell, helement]
      exact V.cell_eq
    -- the cells and the scalar element are those of `V`, so only sizes can be wrong
    rw [build, dif_pos hcell] at h
    split at h
    · rename_i hplace
      rw [helement, V.placement_eq] at hplace
      cases hplace
    · rename_i p hplace
      obtain rfl : V.placement = p := Option.some.inj (by rw [← hplace, helement, V.placement_eq])
      split at h
      · rename_i cause hcount
        cases h
        obtain rfl := Shape.overflow_of_componentCount? hcount
        exact .inr (.inl ⟨rfl, .inl hcount⟩)
      · rename_i n hcount
        obtain rfl := Shape.componentCount_eq hcount
        split at h
        · rename_i hzero
          cases h
          exact .inl ⟨element, rfl, rfl, hzero⟩
        · split at h
          · rename_i hdim
            cases h
            exact .inr (.inl ⟨rfl, .inr hdim⟩)
          · split at h
            · rename_i htable
              cases h
              exact .inr (.inr ⟨rfl, htable⟩)
            · cases h

/-- Next to a space a fault is met only for a shape that does not fit. -/
theorem not_fits_of_ofShape {V : FunctionSpace α} {s : Shape} {cause : Fault}
    (h : ofShape V.whole.scalarElement s V.mesh = .error (.fault cause)) :
    ¬ s.Fits V.nodeCount := by
  intro hfits
  rcases ofShape_eq_error h with ⟨hx, -⟩ | ⟨_, hx, -⟩ | ⟨-, hcount | hdim⟩ | ⟨-, htable⟩
  · cases hx
  · cases hx
  · rw [hfits.counted] at hcount
    cases hcount
  · exact Nat.not_lt.2 hdim hfits.dim_lt
  · exact Nat.not_lt.2 hfits.components_le htable

end FunctionSpace

/-! ## Shapes in a tree -/

/-- At every tensor operation of a tree, the declared shape fits at the nodes of the functions
below (`Shape.Fits`): the components of one value and those of a value for each node are
counted by sizes, and the components of one value are at most `Size.maxEntries`, so that a
table can hold a sub-space for each. -/
def Expr.SizesFit {α : Type} : Expr α → Prop :=
  EachOperation fun op es s =>
    op.isTensorial = true → ∀ f ∈ functionsAll es, s.Fits f.space.nodeCount

end NodalAlgebra
