import NodalAlgebra.Space.Basic

/-!
# Lemmas on function spaces

A space is known by its mesh, its element and its component (`ext_data`), and what
is built is the whole space (`build_eq_ok`). Its sub-spaces are its components
(`sub?_eq_some`), and a whole space has its degrees of freedom in order
(`dofs_eq_range`).
-/

namespace NodalAlgebra

namespace FunctionSpace

variable {α : Type}

/-- Mesh, element and component decide where the nodes are. -/
theorem ext_data {V W : FunctionSpace α} (hmesh : V.mesh = W.mesh) (hwhole : V.whole = W.whole)
    (hcomponent : V.component = W.component) : V = W := by
  obtain ⟨M, e, c, p, _, hp, _, _, _, _, _⟩ := V
  obtain ⟨_, _, _, q, _, hq, _, _, _, _, _⟩ := W
  cases hmesh
  cases hwhole
  cases hcomponent
  obtain rfl : p = q := Option.some.inj (hp.symm.trans hq)
  rfl

/-! ## Construction -/

/-- What is built on a mesh from an element is the whole space of the two, if there
is one. -/
theorem build_eq_ok {M : Mesh α} {e : FiniteElement} {V : FunctionSpace α} :
    build M e = .ok V ↔ V.mesh = M ∧ V.whole = e ∧ V.component = none := by
  constructor
  · intro h
    unfold build at h
    split at h
    · split at h
      · cases h
      · split at h
        · cases h
        · repeat' split at h
          all_goals cases h
          exact ⟨rfl, rfl, rfl⟩
    · cases h
  · rintro ⟨rfl, rfl, hcomponent⟩
    unfold build
    rw [dif_pos V.cell_eq]
    split
    · rename_i hplace
      simp [V.placement_eq] at hplace
    · rename_i p hplace
      obtain rfl : V.placement = p := Option.some.inj (V.placement_eq.symm.trans hplace)
      split
      · rename_i hcount
        simp [V.counted] at hcount
      · rename_i n hcount
        obtain rfl : V.whole.componentCount = n := Except.ok.inj (V.counted.symm.trans hcount)
        rw [dif_neg (Nat.ne_of_gt V.components_pos), dif_neg (Nat.not_le_of_lt V.dim_lt),
          dif_neg (Nat.not_lt_of_le V.components_le)]
        exact congrArg Except.ok (ext_data rfl rfl hcomponent.symm)

/-! ## Components -/

theorem stride_pos (V : FunctionSpace α) : 0 < V.stride := V.components_pos

theorem component_getD_lt (V : FunctionSpace α) : V.component.getD 0 < V.stride := by
  cases hc : V.component with
  | none => exact V.stride_pos
  | some c => exact (V.component_lt c (by simp [hc])).2

/-- A whole space has a sub-space for each component, unless its values are numbers. -/
theorem subCount_of_whole {V : FunctionSpace α} (h : V.component = none) :
    V.subCount = if V.whole.isScalar then 0 else V.stride := by
  simp [subCount, isSubSpace, h]

/-- A sub-space has no sub-spaces. -/
theorem subCount_of_component {V : FunctionSpace α} {c : Nat} (h : V.component = some c) :
    V.subCount = 0 := by
  simp [subCount, isSubSpace, h]

/-! ## Sub-spaces -/

theorem sub?_eq_some {V W : FunctionSpace α} {c : Nat} :
    V.sub? c = some W ↔
      c < V.subCount ∧ W.mesh = V.mesh ∧ W.whole = V.whole ∧ W.component = some c := by
  unfold sub?
  split
  · rename_i h
    simp only [Option.some.injEq, h, true_and]
    constructor
    · rintro rfl
      exact ⟨rfl, rfl, rfl⟩
    · rintro ⟨hmesh, hwhole, hcomponent⟩
      exact ext_data hmesh.symm hwhole.symm hcomponent.symm
  · rename_i h
    simp [h]

/-- The sub-spaces are listed in the order of their components. -/
theorem subSpaces_getElem? (V : FunctionSpace α) (c : Nat) : V.subSpaces[c]? = V.sub? c := by
  unfold subSpaces sub?
  split <;> simp_all

@[simp] theorem length_subSpaces (V : FunctionSpace α) : V.subSpaces.length = V.subCount := by
  simp [subSpaces]

/-- Every sub-space has the scalar element. -/
theorem element_of_mem_subSpaces {V W : FunctionSpace α} (h : W ∈ V.subSpaces) :
    W.element = .scalar V.whole.scalarElement := by
  obtain ⟨c, -, rfl⟩ := List.mem_map.1 h
  rfl

/-- Every sub-space has one degree of freedom for each node. -/
theorem dofs_of_mem_subSpaces {V W : FunctionSpace α} (h : W ∈ V.subSpaces) :
    W.dofs = (List.range V.nodeCount).map W.dofOfNode := by
  obtain ⟨c, -, rfl⟩ := List.mem_map.1 h
  exact if_pos rfl

/-- A space without sub-spaces has numbers as values, or is a sub-space itself. -/
theorem element_of_subCount_eq_zero {V : FunctionSpace α} (h : V.subCount = 0) :
    ∃ e, V.element = .scalar e := by
  unfold element
  cases hcomponent : V.component with
  | some c => exact ⟨_, rfl⟩
  | none =>
      rw [subCount_of_whole hcomponent] at h
      split at h
      · rename_i hscalar
        cases hwhole : V.whole with
        | scalar e => exact ⟨e, rfl⟩
        | vector e n => simp [FiniteElement.isScalar, hwhole] at hscalar
        | tensor e r c => simp [FiniteElement.isScalar, hwhole] at hscalar
      · exact absurd h (Nat.ne_of_gt V.stride_pos)

/-! ## Degrees of freedom -/

/-- The degrees of freedom of a whole space are all numbers below its dimension. -/
theorem dofs_eq_range {V : FunctionSpace α} (h : V.component = none) :
    V.dofs = List.range V.dim := by
  unfold dofs
  split
  · rename_i hcount
    have hstride : V.stride = 1 := by
      rw [subCount_of_whole h] at hcount
      split at hcount
      · rename_i hscalar
        exact FiniteElement.componentCount_of_isScalar hscalar
      · exact absurd hcount (Nat.ne_of_gt V.stride_pos)
    have hdof : V.dofOfNode = id := by
      funext node
      simp [dofOfNode, hstride, h]
    rw [hdof, List.map_id, dim, hstride, Nat.mul_one]
  · rfl

theorem dofOfNode_lt {V : FunctionSpace α} {node : Nat} (h : node < V.nodeCount) :
    V.dofOfNode node < V.dim := by
  have hcomponent := V.component_getD_lt
  have hnodes : (node + 1) * V.stride ≤ V.nodeCount * V.stride := Nat.mul_le_mul_right _ h
  rw [Nat.succ_mul] at hnodes
  simp only [dofOfNode, dim]
  omega

end FunctionSpace

end NodalAlgebra
