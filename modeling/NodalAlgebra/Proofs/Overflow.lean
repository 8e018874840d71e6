import Mathlib.Algebra.Group.Nat.Defs
import Mathlib.Data.List.Induction
import NodalAlgebra.Proofs.DeclaredShapes
import NodalAlgebra.Proofs.GatherScatter
import NodalAlgebra.Proofs.Nodewise

/-!
# Sizes that are too large

A shape is counted if no product of its first dimensions reaches the limit of sizes.
Its components are found by multiplying the dimensions one after the other, so the
number of components is a size exactly for the counted shapes
(`Shape.componentCount?_eq_ok`). What has to count components, of one value or of a
value at each node, therefore meets a fault exactly where they are too many:
building a space (`FunctionSpace.build_eq_fault`), building a node map
(`NodeMap.build_eq_fault`) and reading a value (`TensorValue.ofRowMajor?_eq_error`).
-/

namespace NodalAlgebra

variable {α : Type}

/-! ## Shapes -/

namespace Shape

variable {s : Shape}

/-- No product of the first dimensions reaches the limit. A zero dimension does not
make up for a product of the dimensions before it. -/
def Counted (s : Shape) : Prop :=
  ∀ dims, dims <+: s.dims → (⟨dims⟩ : Shape).componentCount < Size.limit

theorem componentCount_concat (dims : List Nat) (d : Nat) :
    (⟨dims ++ [d]⟩ : Shape).componentCount = (⟨dims⟩ : Shape).componentCount * d := by
  simp [componentCount]

theorem counted_concat {dims : List Nat} {d : Nat} :
    Counted ⟨dims ++ [d]⟩ ↔
      Counted ⟨dims⟩ ∧ (⟨dims⟩ : Shape).componentCount * d < Size.limit := by
  constructor
  · intro h
    refine ⟨fun initial hinitial => h initial (List.prefix_concat_iff.2 (.inr hinitial)), ?_⟩
    rw [← componentCount_concat]
    exact h _ (List.prefix_refl _)
  · rintro ⟨hdims, hd⟩ initial hinitial
    rcases List.prefix_concat_iff.1 hinitial with rfl | hinitial
    · rwa [componentCount_concat]
    · exact hdims initial hinitial

theorem componentCount?_concat (dims : List Nat) (d : Nat) :
    (⟨dims ++ [d]⟩ : Shape).componentCount?
      = (⟨dims⟩ : Shape).componentCount? >>= fun n => Size.mul? n d := by
  simp only [componentCount?, Size.product?, List.foldlM_append, List.foldlM_cons, List.foldlM_nil,
    bind_pure]

/-- The number of components is a size exactly if the shape is counted. -/
theorem componentCount?_eq_ok {n : Nat} :
    s.componentCount? = .ok n ↔ s.Counted ∧ n = s.componentCount := by
  obtain ⟨dims⟩ := s
  induction dims using List.reverseRecOn generalizing n with
  | nil =>
      have hcounted : Counted ⟨[]⟩ := by
        intro dims hdims
        rw [List.prefix_nil.1 hdims]
        show 1 < Size.limit
        decide
      show (Except.ok 1 : Except Fault Nat) = .ok n ↔ _ ∧ n = 1
      simp [hcounted, eq_comm]
  | append_singleton dims d ih =>
      rw [componentCount?_concat, bind_eq_ok, counted_concat, componentCount_concat]
      constructor
      · rintro ⟨m, hm, h⟩
        obtain ⟨hcounted, rfl⟩ := ih.1 hm
        obtain ⟨hlt, rfl⟩ := Size.mul?_eq_ok.1 h
        exact ⟨⟨hcounted, hlt⟩, rfl⟩
      · rintro ⟨⟨hcounted, hlt⟩, rfl⟩
        exact ⟨_, ih.2 ⟨hcounted, rfl⟩, Size.mul?_eq_ok.2 ⟨hlt, rfl⟩⟩

theorem componentCount?_eq_error {cause : Fault} :
    s.componentCount? = .error cause ↔ cause = .overflow ∧ ¬ s.Counted := by
  constructor
  · intro h
    refine ⟨overflow_of_componentCount? h, fun hcounted => ?_⟩
    rw [componentCount?_eq_ok.2 ⟨hcounted, rfl⟩] at h
    cases h
  · rintro ⟨rfl, hcounted⟩
    cases h : s.componentCount? with
    | ok n => exact absurd (componentCount?_eq_ok.1 h).1 hcounted
    | error cause => rw [overflow_of_componentCount? h]

/-- Where no dimension is zero, a shape is counted as soon as its components are. -/
theorem Positive.counted_iff (h : s.Positive) : s.Counted ↔ s.componentCount < Size.limit := by
  obtain ⟨dims⟩ := s
  refine ⟨fun hcounted => hcounted _ (List.prefix_refl _), fun hlt => ?_⟩
  induction dims using List.reverseRecOn with
  | nil =>
      intro initial hinitial
      rw [List.prefix_nil.1 hinitial]
      exact hlt
  | append_singleton dims d ih =>
      have hpos : Positive ⟨dims⟩ := fun x hx => h x (List.mem_append_left _ hx)
      rw [componentCount_concat] at hlt
      refine counted_concat.2 ⟨ih hpos ?_, hlt⟩
      exact Nat.lt_of_le_of_lt (Nat.le_mul_of_pos_right _ (h d (by simp))) hlt

/-- Where there is room for the values of a shape, there is for those of every shape
without a zero dimension that has no more components. -/
theorem Positive.fits_of_le {t : Shape} {nodes : Nat} (h : t.Positive) (hs : s.Fits nodes)
    (hle : t.componentCount ≤ s.componentCount) : t.Fits nodes := by
  have hlimit : Size.maxEntries < Size.limit := by decide
  have hcounted : t.Counted := by
    rw [h.counted_iff]
    have hs' := hs.components_le
    omega
  have hdim : nodes * t.componentCount ≤ nodes * s.componentCount := Nat.mul_le_mul_left _ hle
  exact ⟨componentCount?_eq_ok.2 ⟨hcounted, rfl⟩, Nat.lt_of_le_of_lt hdim hs.dim_lt,
    Nat.le_trans hle hs.components_le⟩

/-- Why there is no room for one value of a shape at each of a number of nodes. -/
inductive TooLarge (s : Shape) (nodes : Nat) : Fault → Prop
  /-- The components of a value cannot be counted. -/
  | components : ¬ s.Counted → TooLarge s nodes .overflow
  /-- The components of all values cannot be counted. -/
  | dofs : s.Counted → Size.limit ≤ nodes * s.componentCount → TooLarge s nodes .overflow
  /-- No table of sub-spaces has an entry for each component of a value. -/
  | table : s.Counted → nodes * s.componentCount < Size.limit →
      Size.maxEntries < s.componentCount → TooLarge s nodes .capacity

/-- There is room for the values exactly if nothing is too large. -/
theorem fits_iff_forall_not_tooLarge {nodes : Nat} :
    s.Fits nodes ↔ ∀ cause, ¬ s.TooLarge nodes cause := by
  constructor
  · intro hfits cause h
    have hcounted := (componentCount?_eq_ok.1 hfits.counted).1
    cases h with
    | components h => exact h hcounted
    | dofs _ h => exact Nat.not_lt.2 h hfits.dim_lt
    | table _ _ h => exact Nat.not_lt.2 hfits.components_le h
  · intro h
    have hcounted : s.Counted := by
      by_contra hcounted
      exact h _ (.components hcounted)
    have hdim : nodes * s.componentCount < Size.limit := by
      by_contra hdim
      exact h _ (.dofs hcounted (Nat.not_lt.1 hdim))
    have htable : s.componentCount ≤ Size.maxEntries := by
      by_contra htable
      exact h _ (.table hcounted hdim (Nat.not_le.1 htable))
    exact ⟨componentCount?_eq_ok.2 ⟨hcounted, rfl⟩, hdim, htable⟩

end Shape

/-! ## Spaces -/

namespace FunctionSpace

/-- Building a space meets a fault exactly if the element belongs to the cells of the
mesh, its nodes are known, and its values at these nodes are too large. -/
theorem build_eq_fault {M : Mesh α} {e : FiniteElement} {cause : Fault} :
    build M e = .error (.fault cause) ↔
      e.cell = M.cell ∧ ∃ p, e.scalarElement.placement? = some p
        ∧ e.valueShape.TooLarge (M.nodeCount p) cause := by
  unfold build
  split
  · rename_i hcell
    simp only [hcell, true_and]
    split
    · rename_i hplace
      simp [hplace]
    · rename_i p hplace
      simp only [hplace, Option.some.injEq, exists_eq_left']
      split
      · rename_i cause' hcount
        obtain ⟨rfl, hcounted⟩ := Shape.componentCount?_eq_error.1 hcount
        constructor
        · intro h
          cases h
          exact .components hcounted
        · intro h
          cases h with
          | components => rfl
          | dofs h => exact absurd h hcounted
          | table h => exact absurd h hcounted
      · rename_i n hcount
        obtain ⟨hcounted, rfl⟩ := Shape.componentCount?_eq_ok.1 hcount
        -- the checks that follow are those of the three ways to be too large
        constructor
        · intro h
          split at h
          · cases h
          · split at h
            · rename_i hdim
              cases h
              exact .dofs hcounted hdim
            · split at h
              · rename_i hdim htable
                cases h
                exact .table hcounted (Nat.not_le.1 hdim) htable
              · cases h
        · intro h
          cases h with
          | components h => exact absurd hcounted h
          | dofs _ hdim =>
              have hpos : e.valueShape.componentCount ≠ 0 := by
                intro hzero
                rw [hzero, Nat.mul_zero] at hdim
                exact absurd hdim (by decide)
              rw [dif_neg hpos, dif_pos hdim]
          | table _ hdim htable =>
              have hpos : e.valueShape.componentCount ≠ 0 := Nat.ne_of_gt (Nat.zero_lt_of_lt htable)
              rw [dif_neg hpos, dif_neg (Nat.not_le.2 hdim), dif_pos htable]
  · rename_i hcell
    simp [hcell]

/-- So does building the space of a shape, if its rank is at most two. -/
theorem ofShape_eq_fault {M : Mesh α} {e : ScalarElement} {s : Shape} {cause : Fault} :
    ofShape e s M = .error (.fault cause) ↔
      s.rank ≤ 2 ∧ e.cell = M.cell ∧ ∃ p, e.placement? = some p
        ∧ s.TooLarge (M.nodeCount p) cause := by
  unfold ofShape
  split
  · rename_i h
    have hrank := FiniteElement.ofShape?_eq_none.1 h
    simp [Nat.not_le_of_lt hrank]
  · rename_i element h
    obtain ⟨rfl, rfl⟩ := FiniteElement.ofShape?_eq_some.1 h
    rw [Failure.mapReason_eq_fault, build_eq_fault]
    simp [FiniteElement.rank_valueShape_le, FiniteElement.cell]

end FunctionSpace

/-! ## Node maps and values -/

/-- Building a node map meets a fault exactly if the space has sub-spaces and the shape
is that of matrices whose components cannot be counted. -/
theorem NodeMap.build_eq_fault {V : FunctionSpace α} {s : Shape} {cause : Fault} :
    NodeMap.build V s = .error (.fault cause) ↔
      cause = .overflow ∧ s.rank ≤ 2 ∧ V.subCount ≠ 0 ∧ s ≠ .scalar ∧ ¬ s.Counted := by
  unfold NodeMap.build
  by_cases hrank : 2 < s.rank
  · simp [hrank, Nat.not_le_of_lt hrank]
  by_cases hsubs : V.subCount = 0
  · rw [if_neg hrank, if_pos hsubs]
    by_cases hscalar : s = .scalar <;> simp [Shape.isScalar_iff, hsubs, hscalar]
  by_cases hscalar : s = .scalar
  · rw [if_neg hrank, if_neg hsubs, if_pos (Shape.isScalar_iff.2 hscalar)]
    simp [hscalar]
  rw [if_neg hrank, if_neg hsubs, if_neg (by rwa [Shape.isScalar_iff])]
  simp only [Nat.not_lt.1 hrank, hsubs, hscalar, ne_eq, not_false_eq_true, true_and]
  cases hcount : s.componentCount? with
  | error cause' =>
      obtain ⟨rfl, hcounted⟩ := Shape.componentCount?_eq_error.1 hcount
      simp [hcounted, eq_comm]
  | ok n =>
      have hcounted := (Shape.componentCount?_eq_ok.1 hcount).1
      -- a counted shape is compared, and the rows of the sub-spaces are always found
      by_cases hn : n = V.subCount
      · simp [hn, hcounted, NodeMap.subSpaceRows_eq hsubs]
      · simp [hn, hcounted]

/-- A shape of rank three or more has three axes in front. -/
theorem Shape.exists_dims_of_rank {s : Shape} (h : 2 < s.rank) :
    ∃ l m n dims, s = ⟨l :: m :: n :: dims⟩ := by
  obtain ⟨dims⟩ := s
  rcases dims with _ | ⟨l, _ | ⟨m, _ | ⟨n, dims⟩⟩⟩
  · exact absurd h (show ¬ 2 < 0 by omega)
  · exact absurd h (show ¬ 2 < 1 by omega)
  · exact absurd h (show ¬ 2 < 2 by omega)
  · exact ⟨l, m, n, dims, rfl⟩

namespace TensorValue

variable {s : Shape} {values : Array α}

/-- Reading a value meets a fault exactly if its components cannot be counted, even if
no value has the rank of the shape. -/
theorem ofRowMajor?_eq_error {cause : Fault} :
    ofRowMajor? s values = .error cause ↔ cause = .overflow ∧ ¬ s.Counted := by
  rw [ofRowMajor?, bind_eq_error, Shape.componentCount?_eq_error]
  simp

/-- A counted shape has no value with given components exactly if its rank exceeds two
or their number is another one. -/
theorem ofRowMajor?_eq_none (h : s.Counted) :
    ofRowMajor? s values = .ok none ↔ 2 < s.rank ∨ values.size ≠ s.componentCount := by
  have hcount := Shape.componentCount?_eq_ok.2 ⟨h, rfl⟩
  rw [ofRowMajor?, hcount, ok_bind, pure_eq_ok, Except.ok.injEq]
  by_cases hsize : values.size = s.componentCount
  · rw [if_pos hsize]
    by_cases hrank : 2 < s.rank
    · obtain ⟨l, m, n, dims, rfl⟩ := Shape.exists_dims_of_rank hrank
      simp [read?, hrank]
    · obtain ⟨a, ha⟩ := exists_read? (Nat.not_lt.1 hrank) hsize
      simp [ha, hrank, hsize]
  · simp [hsize]

end TensorValue

/-! ## What is too large -/

/-- Sizes are all that keeps a request from being answered or refused. A space is not built
if the values of its element are too large at the nodes of the mesh, the space of a shape
and the map of a shape not if those of the shape are, and a value is not read if its
components cannot be counted. A value that can be counted is refused exactly if its rank
exceeds two or the number of components is another one; and where no dimension is zero,
what can be counted is what has a size as its number of components. -/
theorem fault_iff_tooLarge (M : Mesh α) (e : FiniteElement) (sub : ScalarElement) (s : Shape)
    (V : FunctionSpace α) (values : Array α) :
    (∀ cause, FunctionSpace.build M e = .error (.fault cause) ↔
        e.cell = M.cell ∧ ∃ p, e.scalarElement.placement? = some p
          ∧ e.valueShape.TooLarge (M.nodeCount p) cause)
      ∧ (∀ cause, FunctionSpace.ofShape sub s M = .error (.fault cause) ↔
        s.rank ≤ 2 ∧ sub.cell = M.cell ∧ ∃ p, sub.placement? = some p
          ∧ s.TooLarge (M.nodeCount p) cause)
      ∧ (∀ cause, NodeMap.build V s = .error (.fault cause) ↔
        cause = .overflow ∧ s.rank ≤ 2 ∧ V.subCount ≠ 0 ∧ s ≠ .scalar ∧ ¬ s.Counted)
      ∧ (∀ cause, TensorValue.ofRowMajor? s values = .error cause ↔
        cause = .overflow ∧ ¬ s.Counted)
      ∧ (s.Counted → (TensorValue.ofRowMajor? s values = .ok none ↔
        2 < s.rank ∨ values.size ≠ s.componentCount))
      ∧ (s.Positive → (s.Counted ↔ s.componentCount < Size.limit)) :=
  ⟨fun _ => FunctionSpace.build_eq_fault, fun _ => FunctionSpace.ofShape_eq_fault,
    fun _ => NodeMap.build_eq_fault, fun _ => TensorValue.ofRowMajor?_eq_error,
    TensorValue.ofRowMajor?_eq_none, Shape.Positive.counted_iff⟩

/-- Vectors of 2⁶⁴ - 1 components, which can just be counted: one of them is no value with
two components, and there is no space of them on a segment. -/
theorem fault_iff_tooLarge_segment :
    let s : Shape := .vector (2 ^ 64 - 1)
    s.Counted ∧ TensorValue.ofRowMajor? s #[(1 : Int), 2] = .ok none
      ∧ FunctionSpace.ofShape ⟨.lagrange, 1, .interval⟩ s (segment (0 : Int) 1)
        = .error (.fault .overflow) := by
  intro s
  obtain ⟨-, hspace, -, -, hnone, hcounted⟩ := fault_iff_tooLarge (segment (0 : Int) 1)
    (.scalar ⟨.lagrange, 1, .interval⟩) ⟨.lagrange, 1, .interval⟩ s (segmentMatrices 0 1) #[1, 2]
  have hs : s.Counted := by
    refine (hcounted fun d hd => ?_).2 (by decide)
    obtain rfl : d = 2 ^ 64 - 1 := List.mem_singleton.1 hd
    decide
  refine ⟨hs, (hnone hs).2 (.inr (by decide)), (hspace _).2 ⟨by decide, rfl, _, rfl, ?_⟩⟩
  exact .dofs hs (show Size.limit ≤ 2 * (2 ^ 64 - 1) by decide)

/-- A matrix of 2⁶³ rows and four columns has too many components to be counted: it is not
refused as a value with one component, nor as the shape of the values of a space of smaller
matrices, and no more is a value of rank three. -/
theorem matrix_not_refused :
    TensorValue.ofRowMajor? (.matrix (2 ^ 63) 4) #[(1 : Int)] = .error .overflow
      ∧ TensorValue.ofRowMajor? ⟨[2 ^ 63, 4, 2]⟩ #[(1 : Int)] = .error .overflow
      ∧ NodeMap.build (segmentMatrices (0 : Int) 1) (.matrix (2 ^ 63) 4)
        = .error (.fault .overflow)
      ∧ FunctionSpace.build (segment (0 : Int) 1) (.tensor ⟨.lagrange, 1, .interval⟩ (2 ^ 63) 4)
        = .error (.fault .overflow) := by
  have hmatrix : ¬ (Shape.matrix (2 ^ 63) 4).Counted := fun h =>
    absurd (h _ (List.prefix_refl _)) (by decide)
  have hrank : ¬ (⟨[2 ^ 63, 4, 2]⟩ : Shape).Counted := fun h =>
    absurd (h _ (List.prefix_refl _)) (by decide)
  exact ⟨TensorValue.ofRowMajor?_eq_error.2 ⟨rfl, hmatrix⟩,
    TensorValue.ofRowMajor?_eq_error.2 ⟨rfl, hrank⟩,
    NodeMap.build_eq_fault.2 ⟨rfl, by decide, by decide, by decide, hmatrix⟩,
    FunctionSpace.build_eq_fault.2 ⟨rfl, _, rfl, .components hmatrix⟩⟩

end NodalAlgebra
