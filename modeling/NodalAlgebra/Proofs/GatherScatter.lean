import NodalAlgebra.NodeMap
import NodalAlgebra.Proofs.Blocks
import NodalAlgebra.Proofs.Sequence

/-!
# Gathering and scattering blocks

The node map of a whole space lists for each node the block of its coefficients
(`NodeMap.build_eq_ok`). Gathering therefore reads the value of the node
(`gather_nodeValue?`), and scattering a value of the map's shape replaces the
node's block and nothing else (`scatter_block`).
-/

namespace NodalAlgebra

namespace NodeMap

variable {α : Type}

/-- The map whose rows are blocks of `k` coefficients, one after the other. -/
def ofBlocks (s : Shape) (k nodes : Nat) : NodeMap :=
  ⟨s, k, ((List.range nodes).map fun n => List.range' (n * k) k).toArray⟩

@[simp] theorem shape_ofBlocks (s : Shape) (k nodes : Nat) : (ofBlocks s k nodes).shape = s := rfl

@[simp] theorem nodeCount_ofBlocks (s : Shape) (k nodes : Nat) :
    (ofBlocks s k nodes).nodeCount = nodes := by
  simp [nodeCount, ofBlocks]

theorem indices_ofBlocks {s : Shape} {k nodes n : Nat} (hn : n < nodes) :
    (ofBlocks s k nodes).indices n = .ok (List.range' (n * k) k) := by
  simp [indices, ofBlocks, hn]

/-! ## The map of a whole space -/

/-- A node is found in a list with one degree of freedom for each node. -/
theorem dofAt_of_dofs {W : FunctionSpace α} {nodes n : Nat}
    (hdofs : W.dofs = (List.range nodes).map W.dofOfNode) (hn : n < nodes) :
    dofAt W.dofs.toArray n = .ok (W.dofOfNode n) := by
  simp [dofAt, hdofs, hn]

/-- A row of the map runs through the components of a node. -/
theorem row_of_subSpaces {V : FunctionSpace α} (hsubs : V.subCount = V.stride) (n : Nat) :
    V.subSpaces.map (fun W => W.dofOfNode n) = List.range' (n * V.stride) V.stride := by
  have hdof : (fun W => W.dofOfNode n) ∘ V.sub = fun c => n * V.stride + c.val := rfl
  rw [FunctionSpace.subSpaces, List.map_map, hdof, List.range'_eq_map_range, ← hsubs,
    ← List.map_coe_finRange_eq_range, List.map_map]
  rfl

/-- The sub-spaces have equally many degrees of freedom, and every node is found in
each of them. -/
theorem subSpaceRows_eq {V : FunctionSpace α} (hsubs : V.subCount ≠ 0) :
    subSpaceRows V = .ok
      ((List.range V.nodeCount).map fun n => V.subSpaces.map fun W => W.dofOfNode n).toArray := by
  have hsize : ∀ W ∈ V.subSpaces, W.dofs.toArray.size = V.nodeCount := by
    intro W hW
    rw [FunctionSpace.dofs_of_mem_subSpaces hW, List.size_toArray, List.length_map,
      List.length_range]
  have hrow : ∀ n ∈ List.range V.nodeCount,
      (V.subSpaces.map fun W => W.dofs.toArray).mapM (fun dofs => dofAt dofs n)
        = .ok (V.subSpaces.map fun W => W.dofOfNode n) := by
    intro n hn
    rw [mapM_eq_ok, List.forall₂_map_left_iff, List.forall₂_map_right_iff, List.forall₂_same]
    exact fun W hW => dofAt_of_dofs (FunctionSpace.dofs_of_mem_subSpaces hW) (List.mem_range.1 hn)
  have hrows : ((List.range V.nodeCount).mapM fun n =>
      (V.subSpaces.map fun W => W.dofs.toArray).mapM fun dofs => dofAt dofs n)
        = .ok ((List.range V.nodeCount).map fun n => V.subSpaces.map fun W => W.dofOfNode n) := by
    rw [mapM_eq_ok, List.forall₂_map_right_iff, List.forall₂_same]
    exact hrow
  obtain ⟨first, rest, hcons⟩ : ∃ first rest, V.subSpaces = first :: rest := by
    rw [← List.ne_nil_iff_exists_cons, ← List.length_pos_iff_ne_nil,
      FunctionSpace.length_subSpaces]
    exact Nat.pos_of_ne_zero hsubs
  have hnodes : ((V.subSpaces.map fun W => W.dofs.toArray).head?.map Array.size).getD 0
      = V.nodeCount := by
    rw [hcons, List.map_cons, List.head?_cons, Option.map_some, Option.getD_some]
    exact hsize first (by simp [hcons])
  have hany : (V.subSpaces.map fun W => W.dofs.toArray).any
      (fun dofs => dofs.size != V.nodeCount) = false := by
    rw [List.any_eq_false]
    intro dofs hdofs
    obtain ⟨W, hW, rfl⟩ := List.mem_map.1 hdofs
    simp [hsize W hW]
  simp only [subSpaceRows, hnodes, hany, Bool.false_eq_true, if_false, hrows, Failure.ofFault_ok,
    ok_bind, pure_eq_ok]

/-- A whole space has a map for the values of a shape exactly if the shape has
rank at most two, is scalar where the space is, and has the space's number of
components. The rows of the map are the blocks of the nodes. -/
theorem build_eq_ok {V : FunctionSpace α} {s : Shape} {m : NodeMap} (hwhole : V.component = none) :
    build V s = .ok m ↔
      s.rank ≤ 2 ∧ (s = .scalar ↔ V.whole.isScalar = true) ∧ s.componentCount? = .ok V.stride
        ∧ m = ofBlocks s V.stride V.nodeCount := by
  have hsubs := FunctionSpace.subCount_of_whole hwhole
  unfold build
  by_cases hrank : 2 < s.rank
  · rw [if_pos hrank]
    simp [Nat.not_le_of_lt hrank]
  rw [if_neg hrank]
  by_cases hscalar : V.whole.isScalar = true
  · have hstride : V.stride = 1 := FiniteElement.componentCount_of_isScalar hscalar
    have hdof : V.dofs.map (fun i => [i])
        = (List.range V.nodeCount).map fun n => List.range' (n * 1) 1 := by
      rw [FunctionSpace.dofs_eq_range hwhole, FunctionSpace.dim, hstride, Nat.mul_one]
      simp
    rw [if_pos (by rw [hsubs, if_pos hscalar])]
    by_cases hs : s = .scalar
    · subst hs
      have hcount : Shape.scalar.componentCount? = .ok V.stride := by rw [hstride]; rfl
      have hrank' : Shape.scalar.rank ≤ 2 := Nat.zero_le 2
      rw [if_pos (Shape.isScalar_iff.2 rfl), hdof]
      simp [hrank', hscalar, hcount, ofBlocks, hstride, eq_comm]
    · simp [Shape.isScalar_iff, hs, hscalar]
  · rw [if_neg hscalar] at hsubs
    rw [if_neg (by rw [hsubs]; exact Nat.ne_of_gt V.stride_pos)]
    by_cases hs : s = .scalar
    · simp [Shape.isScalar_iff, hs, hscalar]
    · have hrows := subSpaceRows_eq (V := V) (by rw [hsubs]; exact Nat.ne_of_gt V.stride_pos)
      rw [funext (row_of_subSpaces hsubs)] at hrows
      rw [if_neg (by rwa [Shape.isScalar_iff])]
      cases hcount : s.componentCount? with
      | error cause => simp
      | ok count =>
          by_cases hc : count = V.stride
          · simp [hc, hsubs, hrows, ofBlocks, Nat.not_lt.1 hrank, hs, hscalar, eq_comm]
          · simp [hsubs, hc]

/-- A whole space has a map for its own values. -/
theorem build_valueShape {V : FunctionSpace α} (hwhole : V.component = none) :
    build V V.whole.valueShape = .ok (ofBlocks V.whole.valueShape V.stride V.nodeCount) :=
  (build_eq_ok hwhole).2 ⟨FiniteElement.rank_valueShape_le _,
    FiniteElement.valueShape_eq_scalar, V.counted, rfl⟩

/-! ## Gathering -/

theorem mapM_readAt {cs : List α} {i k : Nat} (h : i + k ≤ cs.length) :
    (List.range' i k).mapM (readAt cs.toArray) = .ok ((cs.drop i).take k) := by
  rw [mapM_eq_ok, List.forall₂_iff_get]
  refine ⟨by simp; omega, ?_⟩
  intro j hj _
  rw [List.length_range'] at hj
  have hplace : i + j < cs.length := by omega
  simp [readAt, List.getElem?_eq_getElem hplace]

/-- Gathering through the map of a function's space reads its value. -/
theorem gather_nodeValue? {f : NodalFunction α} {n : Nat} {a : TensorValue α}
    (ha : f.nodeValue? n = some a) :
    (ofBlocks f.valueShape f.space.stride f.space.nodeCount).gather f.coefficients n = .ok a := by
  obtain ⟨hn, hshape, hblock⟩ := NodalFunction.nodeValue?_eq_some_iff_block.1 ha
  have hle : (n + 1) * f.space.stride ≤ f.space.nodeCount * f.space.stride :=
    Nat.mul_le_mul_right _ hn
  rw [Nat.succ_mul, ← f.length_coefficients] at hle
  have hread := mapM_readAt hle
  rw [Array.toArray_toList, ← NodalFunction.block, ← hblock] at hread
  have hcount : f.valueShape.componentCount? = .ok a.components.size := by
    rw [NodalFunction.valueShape_eq_whole, f.space.counted, ← Array.length_toList, hblock,
      f.length_block hn]
    rfl
  have hvalue := TensorValue.ofRowMajor?_eq_some.2 ⟨hcount, hshape, rfl⟩
  simp [gather, indices_ofBlocks hn, hread, hvalue]

/-! ## Scattering -/

private theorem foldlM_writeAt (before after : List α) {old new : List α}
    (h : old.length = new.length) :
    ((List.range' before.length new.length).zip new).foldlM
        (fun cs entry => writeAt cs entry.1 entry.2) (before ++ old ++ after).toArray
      = .ok (before ++ new ++ after).toArray := by
  induction new generalizing before old with
  | nil =>
      obtain rfl := List.eq_nil_of_length_eq_zero h
      rfl
  | cons x new ih =>
      cases old with
      | nil => simp at h
      | cons y old =>
          have hwrite : writeAt (before ++ (y :: old) ++ after).toArray before.length x
              = .ok ((before ++ [x]) ++ old ++ after).toArray := by
            simp [writeAt]
          -- what has been written joins the part that the other writes leave alone
          rw [List.length_cons, List.range'_succ, List.zip_cons_cons, List.foldlM_cons, hwrite]
          have hrest := ih (before ++ [x]) (show old.length = new.length by simpa using h)
          simpa using hrest

/-- Scattering a value of the map's shape replaces the block of the node. -/
theorem scatter_block {s : Shape} {k nodes n : Nat} {before old after : List α}
    {value : TensorValue α} (hn : n < nodes) (hbefore : before.length = n * k)
    (hold : old.length = k) (hcount : s.componentCount? = .ok k) (hshape : value.shape = s) :
    (ofBlocks s k nodes).scatter (before ++ old ++ after).toArray n value
      = .ok (before ++ value.components.toList ++ after).toArray := by
  have hsize : value.components.toList.length = k := by
    rw [Array.length_toList, value.size_components, hshape]
    exact Shape.componentCount_eq hcount
  have hwrite := foldlM_writeAt before after (hold.trans hsize.symm)
  rw [hbefore, hsize] at hwrite
  have hcomponents : value.writeRowMajor k = .ok value.components := by
    simp [TensorValue.writeRowMajor, hshape, hcount]
  have hk : (ofBlocks s k nodes).components = k := rfl
  simp only [scatter, shape_ofBlocks, if_pos hshape, hk, hcomponents, indices_ofBlocks hn,
    Failure.ofFault_ok, ok_bind, hwrite]

/-- A value of another shape is refused. -/
theorem scatter_kernelShape {m : NodeMap} {cs : Array α} {n : Nat} {value : TensorValue α}
    (h : value.shape ≠ m.shape) :
    m.scatter cs n value = .error (.refused (.kernelShape m.shape value.shape)) := by
  simp [scatter, h]

end NodeMap

end NodalAlgebra
