import Mathlib.Data.List.Induction
import NodalAlgebra.Proofs.NodeReaders

/-!
# Filling the nodes of a space

The coefficients of a function of position can be put into a table that already holds
numbers, one node after the other: each node gets its block. One node leaves the blocks
before it and the places after it alone (`NodalFunction.Filled.snoc`), so after the last
one nothing is left of what the table held (`NodalFunction.Filled.unique`), and the table
has the coefficients of the interpolant (`NodalFunction.interpolate_eq_fillNodes`). The
coefficients of a constant function can also be told place by place: the components of the
value come round again and again (`NodalFunction.constant_eq_repeatComponents`).
-/

namespace NodalAlgebra

variable {α : Type}

namespace NodalFunction

/-- Writes a value into the block of a node, if it has as many components as the block has
places. -/
def writeBlock (k : Nat) (cs : Array α) (node : Nat) (value : Array α) : Except Fault (Array α) :=
  if value.size = k then
    ((List.range' (node * k) k).zip value.toList).foldlM
      (fun cs entry => NodeMap.writeAt cs entry.1 entry.2) cs
  else .error .componentCount

/-- Writes values into the blocks of the nodes in order. -/
def writeBlocks (k : Nat) (values : List (Array α)) (cs : Array α) : Except Fault (Array α) :=
  values.zipIdx.foldlM (fun cs entry => writeBlock k cs entry.2 entry.1) cs

/-- Writes what a function of position is at each node into the node's block. -/
def fillNodes [Zero α] [Add α] [Div α] [NatCast α] (V : FunctionSpace α) (φ : Array α → Array α)
    (cs : Array α) : Except Fault (Array α) :=
  writeBlocks V.element.componentCount (V.nodePoints.map φ) cs

/-- One coefficient for each degree of freedom, which is the component of the value that
comes next, and the first one again after the last. -/
def repeatComponents (V : FunctionSpace α) (value : Array α) : Except Fault (Array α) := do
  let k := V.element.componentCount
  if value.size = k then
    let cs ← (List.range V.dim).mapM fun i => NodeMap.readAt value (i % k)
    return cs.toArray
  else throw .componentCount

/-! ## One block after the other -/

/-- A table that holds the components of values in its first blocks, and is like another
table from there on. -/
structure Filled (k : Nat) (values : List (Array α)) (old new : Array α) : Prop where
  size_eq : new.size = old.size
  written : ∀ i < values.length * k, new[i]? = values[i / k]? >>= fun v => v[i % k]?
  unchanged : ∀ i, values.length * k ≤ i → new[i]? = old[i]?

namespace Filled

variable {k : Nat} {values : List (Array α)} {value : Array α} {old old' mid new new' : Array α}

theorem nil (k : Nat) (cs : Array α) : Filled k [] cs cs where
  size_eq := rfl
  written := by
    intro i hi
    simp at hi
  unchanged := fun _ _ => rfl

/-- The next block leaves those before it and everything after it as they are. -/
theorem snoc (h : Filled k values old mid) (hsize : value.size = k)
    (hnew : Overwritten (List.range' (values.length * k) k) value.toList mid new) :
    Filled k (values ++ [value]) old new := by
  have hlength : (values ++ [value]).length * k = values.length * k + k := by
    rw [List.length_append, List.length_singleton, Nat.succ_mul]
  refine ⟨hnew.size_eq.trans h.size_eq, ?_, ?_⟩
  · intro i hi
    by_cases hbefore : i < values.length * k
    · have hdiv : i / k < values.length := Nat.div_lt_of_lt_mul (by rwa [Nat.mul_comm] at hbefore)
      rw [hnew.unchanged i (by simp; omega), h.written i hbefore, List.getElem?_append_left hdiv]
    · -- entry `i` is in the new block, at the place that it has among the components
      obtain ⟨j, rfl⟩ := Nat.exists_eq_add_of_le (Nat.le_of_not_lt hbefore)
      have hj : j < k := by omega
      have hdiv : (values.length * k + j) / k = values.length :=
        Nat.div_eq_of_lt_le (by omega) (by rw [Nat.succ_mul]; omega)
      have hmod : (values.length * k + j) % k = j := by
        rw [Nat.mul_add_mod_self_right, Nat.mod_eq_of_lt hj]
      have hplace := congrArg (·[j]?) hnew.written
      simp only [List.getElem?_map, List.getElem?_range' hj, Option.map_some, Nat.one_mul,
        Array.getElem?_toList] at hplace
      rw [hdiv, hmod, List.getElem?_concat_length]
      show new[values.length * k + j]? = value[j]?
      cases hvalue : value[j]? with
      | none =>
          rw [Array.getElem?_eq_none_iff] at hvalue
          omega
      | some x => simpa [hvalue] using hplace
  · intro i hi
    rw [hnew.unchanged i (by simp; omega), h.unchanged i (by omega)]

/-- Where the blocks take up all places, nothing is left of what the table held. -/
theorem unique (h : Filled k values old new) (h' : Filled k values old' new')
    (hold : old.size = values.length * k) (hold' : old'.size = values.length * k) :
    new = new' := by
  apply Array.ext_getElem?
  intro i
  by_cases hi : i < values.length * k
  · rw [h.written i hi, h'.written i hi]
  · rw [Array.getElem?_eq_none (by rw [h.size_eq]; omega),
      Array.getElem?_eq_none (by rw [h'.size_eq]; omega)]

end Filled

variable {k : Nat} {values : List (Array α)} {value : Array α} {old mid : Array α}

/-- A block with room for it takes a value of its size. -/
theorem exists_writeBlock {n : Nat} (hsize : value.size = k) (hroom : n * k + k ≤ mid.size) :
    ∃ new, writeBlock k mid n value = .ok new
      ∧ Overwritten (List.range' (n * k) k) value.toList mid new := by
  have hlt : ∀ i ∈ List.range' (n * k) k, i < mid.size := by
    intro i hi
    rw [List.mem_range'_1] at hi
    omega
  have hlength : (List.range' (n * k) k).length = value.toList.length := by
    rw [List.length_range', Array.length_toList, hsize]
  obtain ⟨new, hnew, hover⟩ := NodeMap.exists_foldlM_writeAt List.nodup_range' hlt hlength
  exact ⟨new, (if_pos hsize).trans hnew, hover⟩

theorem writeBlocks_concat (k : Nat) (values : List (Array α)) (value cs : Array α) :
    writeBlocks k (values ++ [value]) cs
      = writeBlocks k values cs >>= fun ds => writeBlock k ds values.length value := by
  rw [writeBlocks, List.zipIdx_append, List.foldlM_append, ← writeBlocks]
  cases writeBlocks k values cs with
  | error cause => rfl
  | ok ds =>
      rw [ok_bind, ok_bind, Nat.zero_add]
      exact bind_pure _

/-- Values of the size of the blocks fill as many of them as there is room for. -/
theorem exists_writeBlocks (hsize : ∀ v ∈ values, v.size = k)
    (hroom : values.length * k ≤ old.size) :
    ∃ new, writeBlocks k values old = .ok new ∧ Filled k values old new := by
  induction values using List.reverseRecOn with
  | nil => exact ⟨old, rfl, .nil k old⟩
  | append_singleton values value ih =>
      rw [List.length_append, List.length_singleton, Nat.succ_mul] at hroom
      obtain ⟨mid, hmid, hfilled⟩ := ih (fun v hv => hsize v (by simp [hv])) (by omega)
      have hvalue : value.size = k := hsize value (by simp)
      obtain ⟨new, hnew, hover⟩ := exists_writeBlock hvalue (by rwa [hfilled.size_eq])
      exact ⟨new, by rw [writeBlocks_concat, hmid, ok_bind, hnew], hfilled.snoc hvalue hover⟩

/-- A value of another size ends the writing. -/
theorem writeBlocks_error (hsize : ¬ ∀ v ∈ values, v.size = k)
    (hroom : values.length * k ≤ old.size) :
    writeBlocks k values old = .error .componentCount := by
  induction values using List.reverseRecOn with
  | nil => simp at hsize
  | append_singleton values value ih =>
      rw [List.length_append, List.length_singleton, Nat.succ_mul] at hroom
      rw [writeBlocks_concat]
      by_cases hbefore : ∀ v ∈ values, v.size = k
      · have hroom' : values.length * k ≤ old.size := by omega
        obtain ⟨mid, hmid, -⟩ := exists_writeBlocks hbefore hroom'
        have hvalue : value.size ≠ k := fun hvalue => hsize (by simpa [or_imp, forall_and] using
          ⟨hbefore, hvalue⟩)
        rw [hmid, ok_bind, writeBlock, if_neg hvalue]
      · rw [ih hbefore (by omega)]
        rfl

/-! ## The coefficients of a function -/

/-- The number of a coefficient tells its block and its place there. -/
theorem getElem?_coefficients (f : NodalFunction α) (i : Nat) :
    f.coefficients[i]? = (f.block (i / f.space.stride))[i % f.space.stride]? := by
  have hmod : i % f.space.stride < f.space.stride := Nat.mod_lt i f.space.stride_pos
  rw [block, List.getElem?_take, if_pos hmod, List.getElem?_drop, Nat.div_add_mod',
    Array.getElem?_toList]

/-- The coefficients of the function with given components at its nodes are the table whose
blocks are filled with them. -/
theorem filled_of_ofNodeValues {V : FunctionSpace α} {f : NodalFunction α}
    (hlength : values.length = V.nodeCount) (h : ofNodeValues V values = .ok f) :
    Filled V.stride values f.coefficients f.coefficients := by
  obtain ⟨rfl, -, hblocks⟩ := (ofNodeValues_eq_ok hlength).1 h
  refine ⟨rfl, fun i hi => ?_, fun _ _ => rfl⟩
  have hnode : i / f.space.stride < values.length :=
    (Nat.div_lt_iff_lt_mul f.space.stride_pos).2 hi
  rw [getElem?_coefficients, hblocks _ hnode,
    List.getElem?_eq_getElem hnode]
  exact Array.getElem?_toList

/-- What a function is made of are its coefficients. -/
theorem eq_ok_of_ofCoefficients {V : FunctionSpace α} {x : Except Fault (Array α)}
    {f : NodalFunction α}
    (h : (do let cs ← Failure.ofFault x; Failure.ofRefusal (ofCoefficients V cs)) = .ok f) :
    x = .ok f.coefficients := by
  obtain ⟨cs, hcs, hf⟩ := bind_eq_ok.1 h
  obtain ⟨-, rfl, -⟩ := ofCoefficients_eq_ok.1 (Failure.ofRefusal_eq_ok.1 hf)
  exact Failure.ofFault_eq_ok.1 hcs

/-- Filling the nodes of a whole space, whatever the table holds, makes the function with
the given components at them. -/
theorem ofNodeValues_eq_writeBlocks {V : FunctionSpace α} (hwhole : V.component = none)
    (hlength : values.length = V.nodeCount) (hold : old.size = V.dim) :
    ofNodeValues V values = (do
      let cs ← Failure.ofFault (writeBlocks V.element.componentCount values old)
      Failure.ofRefusal (ofCoefficients V cs)) := by
  have hroom : old.size = values.length * V.stride := by rw [hold, hlength]; rfl
  rw [FunctionSpace.componentCount_element hwhole]
  by_cases hsize : ∀ v ∈ values, v.size = V.stride
  · obtain ⟨f, hf⟩ := exists_ofNodeValues hwhole values hlength hsize
    obtain ⟨rfl, hmark, -⟩ := (ofNodeValues_eq_ok hlength).1 hf
    obtain ⟨new, hnew, hfilled⟩ := exists_writeBlocks hsize (Nat.le_of_eq hroom.symm)
    obtain rfl : new = f.coefficients :=
      hfilled.unique (filled_of_ofNodeValues hlength hf) hroom
        (by rw [f.size_eq, ← hold, hroom])
    rw [hf, hnew, Failure.ofFault_ok, ok_bind, eq_comm, Failure.ofRefusal_eq_ok,
      ofCoefficients_eq_ok]
    exact ⟨rfl, rfl, hmark⟩
  · rw [writeBlocks_error hsize (Nat.le_of_eq hroom.symm), ofNodeValues,
      FunctionSpace.componentCount_element hwhole, if_neg (by simpa using hsize)]
    rfl

/-- The components of a value, repeated over all degrees of freedom, make the function that
has the value at every node. -/
theorem constant_eq_repeatComponents {V : FunctionSpace α} (hwhole : V.component = none)
    (value : Array α) :
    constant V value = (do
      let cs ← Failure.ofFault (repeatComponents V value)
      Failure.ofRefusal (ofCoefficients V cs)) := by
  unfold constant repeatComponents
  by_cases hsize : value.size = V.element.componentCount
  · rw [if_pos hsize, if_pos hsize]
    rw [FunctionSpace.componentCount_element hwhole] at hsize ⊢
    have hlength : (List.replicate V.nodeCount value).length = V.nodeCount := List.length_replicate
    obtain ⟨f, hf⟩ := exists_ofNodeValues hwhole (List.replicate V.nodeCount value) hlength
      (fun v hv => by rw [List.eq_of_mem_replicate hv, hsize])
    obtain ⟨rfl, hmark, -⟩ := (ofNodeValues_eq_ok hlength).1 hf
    have hfilled := filled_of_ofNodeValues hlength hf
    have hread : (List.range f.space.dim).mapM
        (fun i => NodeMap.readAt value (i % f.space.stride)) = .ok f.coefficients.toList := by
      rw [mapM_eq_ok, List.forall₂_iff_get]
      refine ⟨by rw [List.length_range, Array.length_toList, f.size_eq], ?_⟩
      intro i hi hi'
      rw [List.length_range] at hi
      have hnode : i / f.space.stride < f.space.nodeCount :=
        (Nat.div_lt_iff_lt_mul f.space.stride_pos).2 hi
      -- every block holds the value
      have hplace := hfilled.written i (by rwa [hlength])
      rw [List.getElem?_replicate_of_lt hnode, Array.getElem?_eq_getElem (by rwa [f.size_eq])]
        at hplace
      simpa [NodeMap.readAt_eq_ok] using hplace.symm
    rw [hf, hread, ok_bind, pure_eq_ok, Failure.ofFault_ok, ok_bind, eq_comm,
      Failure.ofRefusal_eq_ok, ofCoefficients_eq_ok]
    exact ⟨rfl, Array.toArray_toList.symm, hmark⟩
  · rw [if_neg hsize, if_neg hsize]
    rfl

/-! ## Interpolants -/

section

variable [Zero α] [Add α] [Div α] [NatCast α]

/-- Interpolation fills the nodes, and what the table held before does not matter. -/
theorem interpolate_eq_fillNodes {V : FunctionSpace α} (hwhole : V.component = none)
    (φ : Array α → Array α) (hold : old.size = V.dim) :
    interpolate V φ = (do
      let cs ← Failure.ofFault (fillNodes V φ old)
      Failure.ofRefusal (ofCoefficients V cs)) :=
  ofNodeValues_eq_writeBlocks hwhole (by rw [List.length_map, V.length_nodePoints]) hold

/-- A function with enough components at each node has an interpolant. -/
theorem exists_interpolate {V : FunctionSpace α} (hwhole : V.component = none)
    {φ : Array α → Array α} (hφ : ∀ x ∈ V.nodePoints, (φ x).size = V.stride) :
    ∃ f, interpolate V φ = .ok f := by
  refine exists_ofNodeValues hwhole _ (by rw [List.length_map, V.length_nodePoints]) ?_
  intro v hv
  obtain ⟨x, hx, rfl⟩ := List.mem_map.1 hv
  exact hφ x hx

/-- A coefficient of an interpolant is a component at the coordinates of a node. -/
theorem getElem?_interpolate {V : FunctionSpace α} {φ : Array α → Array α} {f : NodalFunction α}
    (h : interpolate V φ = .ok f) {i : Nat} (hi : i < V.dim) :
    ∃ x, V.nodePoints[i / V.stride]? = some x ∧ f.coefficients[i]? = (φ x)[i % V.stride]? := by
  obtain ⟨rfl, -, hblocks⟩ := interpolate_eq_ok.1 h
  have hnode : i / f.space.stride < f.space.nodePoints.length := by
    rw [f.space.length_nodePoints]
    exact (Nat.div_lt_iff_lt_mul f.space.stride_pos).2 hi
  have hx := List.getElem?_eq_getElem hnode
  refine ⟨_, hx, ?_⟩
  rw [getElem?_coefficients, hblocks _ _ hx, Array.getElem?_toList]

/-- The lists of degrees of freedom lead at every node of an interpolant to the value with
the components at the node's coordinates. -/
theorem valueByDofs?_interpolate {V : FunctionSpace α} {φ : Array α → Array α}
    {f : NodalFunction α} (h : interpolate V φ = .ok f) {n : Nat} (hn : n < V.nodesByDofs) :
    ∃ x a, V.nodePoints[n]? = some x ∧ f.nodeValue? n = some a
      ∧ f.valueByDofs? n = .ok (some a) ∧ a.shape = V.element.valueShape
      ∧ a.components = φ x := by
  obtain ⟨rfl, -, -⟩ := interpolate_eq_ok.1 h
  have hnode : n < f.space.nodePoints.length := by
    rwa [f.space.length_nodePoints, ← FunctionSpace.nodesByDofs_eq]
  have hx := List.getElem?_eq_getElem hnode
  obtain ⟨m, -, hagree⟩ := f.readers_agree
  obtain ⟨hdofs, hinside, -⟩ := hagree n
  obtain ⟨a, ha, -, hshape⟩ := hinside hn
  have hread := (nodeValue?_interpolate h hx).symm.trans ha
  obtain ⟨-, hcomponents⟩ := TensorValue.read?_eq_some.1 hread
  exact ⟨_, a, hx, ha, hdofs.trans (congrArg Except.ok ha), hshape, hcomponents⟩

/-- In a space that is built on a mesh a function of position that has the components of a
value at each node has an interpolant. It is what filling the nodes leads to, whatever the
table held before; each coefficient is the component of its place at the coordinates of its
node; and the value at every node is of the shape of the space's values and has the
components at the node's coordinates. A value with the right number of components makes a
constant function, which is the interpolant of the constant function of position, and whose
coefficients are the repeated components. -/
theorem interpolate_fills_nodes {M : Mesh α} {e : FiniteElement} {V : FunctionSpace α}
    (h : FunctionSpace.build M e = .ok V) {φ : Array α → Array α}
    (hφ : ∀ x ∈ V.nodePoints, (φ x).size = e.valueShape.componentCount) :
    (∃ f, interpolate V φ = .ok f ∧ f.space = V
      ∧ (∀ old : Array α, old.size = V.dim → fillNodes V φ old = .ok f.coefficients)
      ∧ (∀ i < V.dim, ∃ x, V.nodePoints[i / e.valueShape.componentCount]? = some x
        ∧ f.coefficients[i]? = (φ x)[i % e.valueShape.componentCount]?)
      ∧ ∀ n < V.nodesByDofs, ∃ x a, V.nodePoints[n]? = some x ∧ f.nodeValue? n = some a
        ∧ f.valueByDofs? n = .ok (some a) ∧ a.shape = e.valueShape ∧ a.components = φ x)
    ∧ ∀ value : Array α, value.size = e.valueShape.componentCount →
      ∃ f, constant V value = .ok f ∧ interpolate V (fun _ => value) = .ok f
        ∧ repeatComponents V value = .ok f.coefficients := by
  obtain ⟨rfl, rfl, hwhole⟩ := FunctionSpace.build_eq_ok.1 h
  rw [FiniteElement.componentCount_valueShape] at hφ ⊢
  constructor
  · obtain ⟨f, hf⟩ := exists_interpolate hwhole hφ
    obtain ⟨hspace, -, -⟩ := interpolate_eq_ok.1 hf
    refine ⟨f, hf, hspace, ?_, fun i hi => getElem?_interpolate hf hi, ?_⟩
    · intro old hold
      exact eq_ok_of_ofCoefficients ((interpolate_eq_fillNodes hwhole φ hold).symm.trans hf)
    · intro n hn
      rw [← FunctionSpace.element_of_whole hwhole]
      exact valueByDofs?_interpolate hf hn
  · intro value hvalue
    have hnodes : ∀ x ∈ V.nodePoints, ((fun _ => value) x).size = V.stride := fun _ _ => hvalue
    obtain ⟨f, hf⟩ := exists_interpolate hwhole hnodes
    have hconstant : constant V value = .ok f := by
      rw [constant, if_pos (hvalue.trans (FunctionSpace.componentCount_element hwhole).symm),
        ← V.length_nodePoints, ← List.map_const']
      exact hf
    refine ⟨f, hconstant, hf, ?_⟩
    exact eq_ok_of_ofCoefficients ((constant_eq_repeatComponents hwhole value).symm.trans hconstant)

end

/-- A matrix for each end of a segment, with the coordinate in its second row: the nodes are
filled over a table of ones. -/
theorem interpolate_fills_nodes_segment :
    let V := segmentMatrices (3 : Int) 5
    let φ : Array Int → Array Int := fun x => #[1, 2, x.getD 0 0, 4]
    FunctionSpace.build (segment (3 : Int) 5) (.tensor ⟨.lagrange, 1, .interval⟩ 2 2) = .ok V
      ∧ (∀ x ∈ V.nodePoints, (φ x).size = 4)
      ∧ ∃ f a, interpolate V φ = .ok f
        ∧ fillNodes V φ #[1, 1, 1, 1, 1, 1, 1, 1] = .ok f.coefficients
        ∧ f.valueByDofs? 1 = .ok (some a) ∧ a.shape = .matrix 2 2
        ∧ a.components = #[1, 2, 5, 4] := by
  intro V φ
  have h : FunctionSpace.build (segment (3 : Int) 5) (.tensor ⟨.lagrange, 1, .interval⟩ 2 2)
      = .ok V := FunctionSpace.build_eq_ok.2 ⟨rfl, rfl, rfl⟩
  have hφ : ∀ x ∈ V.nodePoints, (φ x).size = 4 := fun _ _ => rfl
  obtain ⟨⟨f, hf, -, hfill, -, hvalue⟩, -⟩ := interpolate_fills_nodes h hφ
  obtain ⟨x, a, hx, -, ha, hshape, hcomponents⟩ :=
    hvalue 1 (by rw [FunctionSpace.nodesByDofs_eq]; decide)
  obtain rfl : #[(5 : Int)] = x := Option.some.inj hx
  exact ⟨h, hφ, f, a, hf, hfill _ rfl, ha, hshape, hcomponents⟩

end NodalFunction

end NodalAlgebra
