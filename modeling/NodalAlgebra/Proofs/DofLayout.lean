import Mathlib.Data.List.Nodup
import NodalAlgebra.Proofs.Interpolation
import NodalAlgebra.Proofs.Nodewise

/-!
# The layout of degrees of freedom

A space numbers its degrees of freedom node by node, and each sub-space has the same
component of every node. The number of a degree of freedom tells its component
(`FunctionSpace.dofOfNode_mod`), so that the sub-spaces share out the degrees of freedom
(`FunctionSpace.perm_flatMap_dofs`). The nodes can be counted from these numbers, from the
mesh and from the list of node coordinates, which have as many entries as the mesh has
dimensions (`FunctionSpace.layout_of_build`).
-/

namespace NodalAlgebra

variable {α : Type}

/-! ## Coordinates of the nodes -/

namespace Mesh

theorem size_of_mem_vertices {M : Mesh α} {x : Array α} (h : x ∈ M.vertices) :
    x.size = M.geometryDim := by
  unfold geometryDim
  split
  · rename_i first hfirst
    exact M.uniform x h first (Array.mem_of_getElem? hfirst)
  · rename_i hnone
    rw [Array.getElem?_eq_none_iff] at hnone
    obtain ⟨i, hi, -⟩ := Array.mem_iff_getElem.1 h
    omega

theorem size_of_mem_points {M : Mesh α} {indices : List Nat} {x : Array α}
    (h : x ∈ M.points indices) : x.size = M.geometryDim := by
  obtain ⟨i, -, hi⟩ := List.mem_filterMap.1 h
  exact size_of_mem_vertices (Array.mem_of_getElem? hi)

/-- Points of one dimension have a sum of this dimension. -/
theorem size_foldl_zipWith {f : α → α → α} {d : Nat} {ps : List (Array α)}
    (hps : ∀ p ∈ ps, p.size = d) {s : Array α} (hs : s.size = d) :
    (ps.foldl (fun s p => Array.zipWith f s p) s).size = d := by
  induction ps generalizing s with
  | nil => exact hs
  | cons p ps ih =>
      have hp : p.size = d := hps p (by simp)
      exact ih (fun q hq => hps q (by simp [hq])) (by simp [hs, hp])

variable [Zero α] [Add α] [Div α] [NatCast α]

theorem size_of_centroid? {M : Mesh α} {i : Nat} {x : Array α} (h : M.centroid? i = some x) :
    x.size = M.geometryDim := by
  obtain ⟨corners, -, rfl⟩ := Option.map_eq_some_iff.1 h
  rw [Array.size_map]
  exact size_foldl_zipWith (fun p hp => size_of_mem_points hp) Array.size_replicate

/-- A node has as many coordinates as the mesh has dimensions. -/
theorem size_of_mem_nodePoints {M : Mesh α} {p : NodePlacement} {x : Array α}
    (h : x ∈ M.nodePoints p) : x.size = M.geometryDim := by
  cases p with
  | vertices => exact size_of_mem_vertices (Array.mem_toList_iff.1 h)
  | cellCentres =>
      obtain ⟨i, -, hi⟩ := List.mem_filterMap.1 h
      exact size_of_centroid? hi
  | cellCorners => exact size_of_mem_points h

end Mesh

namespace FunctionSpace

/-! ## Nodes and components -/

/-- The number of a degree of freedom tells its component. -/
theorem dofOfNode_mod (V : FunctionSpace α) (n : Nat) :
    V.dofOfNode n % V.stride = V.component.getD 0 := by
  rw [dofOfNode, Nat.add_comm, Nat.add_mul_mod_self_right, Nat.mod_eq_of_lt V.component_getD_lt]

theorem dofOfNode_strictMono (V : FunctionSpace α) {n m : Nat} (h : n < m) :
    V.dofOfNode n < V.dofOfNode m :=
  Nat.add_lt_add_right (Nat.mul_lt_mul_of_pos_right h V.stride_pos) _

/-- A space with sub-spaces is a whole one, with a sub-space for each component. -/
theorem subCount_eq_stride {V : FunctionSpace α} (h : V.subCount ≠ 0) :
    V.component = none ∧ V.subCount = V.stride := by
  unfold subCount at h ⊢
  split at h
  · exact absurd rfl h
  · rename_i hwhole
    rw [if_neg hwhole]
    simp only [isSubSpace, Bool.or_eq_true, not_or, Bool.not_eq_true, Option.isSome_eq_false_iff,
      Option.isNone_iff_eq_none] at hwhole
    exact ⟨hwhole.1, rfl⟩

theorem sub_mem (V : FunctionSpace α) (c : Fin V.subCount) : V.sub c ∈ V.subSpaces :=
  List.mem_map.2 ⟨c, List.mem_finRange c, rfl⟩

/-! ## The lists of degrees of freedom -/

/-- The degrees of freedom of every space increase. -/
theorem pairwise_dofs (V : FunctionSpace α) : V.dofs.Pairwise (· < ·) := by
  unfold dofs
  split
  · exact List.pairwise_lt_range.map _ fun _ _ h => V.dofOfNode_strictMono h
  · exact List.pairwise_lt_range

/-- The number of nodes as the degrees of freedom give it: each sub-space has an equal
share of them. -/
def nodesByDofs (V : FunctionSpace α) : Nat := V.dofs.length / max 1 V.subSpaces.length

theorem nodesByDofs_eq (V : FunctionSpace α) : V.nodesByDofs = V.nodeCount := by
  rw [nodesByDofs, length_subSpaces]
  by_cases h : V.subCount = 0
  · simp [dofs, h]
  · have hstride := V.stride_pos
    rw [dofs, if_neg h, (subCount_eq_stride h).2, List.length_range, dim, Nat.max_eq_right hstride,
      Nat.mul_div_cancel _ hstride]

/-- A sub-space has the degrees of freedom whose number tells its component. -/
theorem mem_dofs_sub {V : FunctionSpace α} {c : Fin V.subCount} {i : Nat} :
    i ∈ (V.sub c).dofs ↔ i < V.dim ∧ i % V.stride = c := by
  rw [dofs_of_mem_subSpaces (V.sub_mem c)]
  constructor
  · intro h
    obtain ⟨n, hn, rfl⟩ := List.mem_map.1 h
    exact ⟨(V.sub c).dofOfNode_lt (List.mem_range.1 hn), (V.sub c).dofOfNode_mod n⟩
  · rintro ⟨hi, hc⟩
    refine List.mem_map.2 ⟨i / V.stride, List.mem_range.2 ?_, ?_⟩
    · exact (Nat.div_lt_iff_lt_mul V.stride_pos).2 hi
    · show i / V.stride * V.stride + c = i
      rw [← hc, Nat.div_add_mod']

theorem disjoint_dofs {V : FunctionSpace α} {c d : Fin V.subCount} (h : c ≠ d) :
    List.Disjoint (V.sub c).dofs (V.sub d).dofs := by
  intro i hc hd
  exact h (Fin.ext ((mem_dofs_sub.1 hc).2.symm.trans (mem_dofs_sub.1 hd).2))

theorem pairwise_disjoint_dofs (V : FunctionSpace α) :
    V.subSpaces.Pairwise fun U W => List.Disjoint U.dofs W.dofs :=
  List.pairwise_map.2 ((List.nodup_finRange _).imp disjoint_dofs)

/-- The sub-spaces share out the degrees of freedom: each is one of exactly one sub-space. -/
theorem perm_flatMap_dofs {V : FunctionSpace α} (h : V.subCount ≠ 0) :
    (V.subSpaces.flatMap dofs).Perm (List.range V.dim) := by
  have hnodup : (V.subSpaces.flatMap dofs).Nodup := by
    rw [List.nodup_flatMap]
    exact ⟨fun W _ => W.pairwise_dofs.imp Nat.ne_of_lt, V.pairwise_disjoint_dofs⟩
  rw [List.perm_ext_iff_of_nodup hnodup List.nodup_range]
  intro i
  rw [List.mem_flatMap, List.mem_range]
  constructor
  · rintro ⟨W, hW, hi⟩
    obtain ⟨c, -, rfl⟩ := List.mem_map.1 hW
    exact (mem_dofs_sub.1 hi).1
  · intro hi
    have hc : i % V.stride < V.subCount := by
      rw [(subCount_eq_stride h).2]
      exact Nat.mod_lt _ V.stride_pos
    exact ⟨V.sub ⟨_, hc⟩, V.sub_mem _, mem_dofs_sub.2 ⟨hi, rfl⟩⟩

/-! ## The layout of a space -/

section

variable [Zero α] [Add α] [Div α] [NatCast α]

/-- The degrees of freedom of a space that is built on a mesh are all numbers below its
dimension in order. Unless its values are numbers, it has a sub-space for each of their
components, and the sub-spaces share out the degrees of freedom: each has one for every
node, in increasing order, the one of component `c` at node `n` of `k` components being
number `n * k + c`. A sub-space reports the dimension and the nodes of the space and the
scalar element. The nodes of the space and of its sub-spaces have coordinates, as many as
the mesh has dimensions. -/
theorem layout_of_build {M : Mesh α} {e : FiniteElement} {V : FunctionSpace α}
    (h : build M e = .ok V) :
    V.dofs = List.range V.dim ∧ V.nodesByDofs = V.nodeCount
      ∧ (e.isScalar = false → V.subSpaces.length = e.valueShape.componentCount
        ∧ (V.subSpaces.flatMap dofs).Perm (List.range V.dim))
      ∧ V.subSpaces.Pairwise (fun U W => List.Disjoint U.dofs W.dofs)
      ∧ (∀ (c : Nat) (W : FunctionSpace α), V.subSpaces[c]? = some W →
        W.dofs.length = V.nodeCount ∧ W.dofs.Pairwise (· < ·)
          ∧ (∀ n < V.nodeCount, W.dofs[n]? = some (n * e.valueShape.componentCount + c))
          ∧ W.dim = V.dim ∧ W.nodesByDofs = V.nodeCount ∧ W.element = .scalar e.scalarElement)
      ∧ ∀ W ∈ V :: V.subSpaces, W.nodePoints.length = V.nodeCount
        ∧ ∀ x ∈ W.nodePoints, x.size = M.geometryDim := by
  obtain ⟨rfl, rfl, hwhole⟩ := build_eq_ok.1 h
  have hstride : V.whole.valueShape.componentCount = V.stride :=
    V.whole.componentCount_valueShape
  have hpoints : ∀ W ∈ V :: V.subSpaces, W.mesh = V.mesh ∧ W.nodeCount = V.nodeCount := by
    intro W hW
    rcases List.mem_cons.1 hW with rfl | hW
    · exact ⟨rfl, rfl⟩
    · obtain ⟨c, -, rfl⟩ := List.mem_map.1 hW
      exact ⟨rfl, rfl⟩
  refine ⟨dofs_eq_range hwhole, V.nodesByDofs_eq, ?_, V.pairwise_disjoint_dofs, ?_, ?_⟩
  · intro hscalar
    have hsubs : V.subCount = V.stride := by
      rw [subCount_of_whole hwhole, hscalar, if_neg Bool.false_ne_true]
    rw [length_subSpaces, hstride]
    exact ⟨hsubs, perm_flatMap_dofs (hsubs ▸ Nat.ne_of_gt V.stride_pos)⟩
  · intro c W hW
    rw [subSpaces_getElem?, sub?, Option.dite_none_right_eq_some] at hW
    obtain ⟨hc, hW⟩ := hW
    obtain rfl : V.sub ⟨c, hc⟩ = W := Option.some.inj hW
    have hdofs := dofs_of_mem_subSpaces (V.sub_mem ⟨c, hc⟩)
    refine ⟨by simp [hdofs], pairwise_dofs _, fun n hn => ?_, rfl, nodesByDofs_eq _, rfl⟩
    rw [hdofs, hstride, List.getElem?_map, List.getElem?_range hn]
    rfl
  · intro W hW
    obtain ⟨hmesh, hnodes⟩ := hpoints W hW
    exact ⟨W.length_nodePoints.trans hnodes, fun x hx => hmesh ▸ Mesh.size_of_mem_nodePoints hx⟩

end

/-- Matrices on a segment: eight degrees of freedom, shared out among four sub-spaces, of which
the last one has number 7 at the second node. -/
theorem layout_of_build_segment :
    let V := segmentMatrices (0 : Int) 1
    build (segment (0 : Int) 1) (.tensor ⟨.lagrange, 1, .interval⟩ 2 2) = .ok V
      ∧ V.dofs = List.range 8 ∧ (V.subSpaces.flatMap dofs).Perm (List.range 8)
      ∧ (∃ W, V.subSpaces[3]? = some W ∧ W.dofs[1]? = some 7)
      ∧ ∀ x ∈ V.nodePoints, x.size = 1 := by
  intro V
  have h : build (segment (0 : Int) 1) (.tensor ⟨.lagrange, 1, .interval⟩ 2 2) = .ok V :=
    build_eq_ok.2 ⟨rfl, rfl, rfl⟩
  obtain ⟨hdofs, -, hsubs, -, hsub, hpoints⟩ := layout_of_build h
  obtain ⟨hcount, hperm⟩ := hsubs rfl
  obtain ⟨W, hW⟩ : ∃ W, V.subSpaces[3]? = some W :=
    ⟨_, List.getElem?_eq_getElem (hcount ▸ (by decide : 3 < 4))⟩
  obtain ⟨-, -, hplace, -⟩ := hsub 3 W hW
  exact ⟨h, hdofs, hperm, ⟨W, hW, hplace 1 (by decide)⟩, (hpoints V (by simp)).2⟩

end FunctionSpace

end NodalAlgebra
