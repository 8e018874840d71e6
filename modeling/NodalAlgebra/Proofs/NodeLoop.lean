import NodalAlgebra.Evaluate.Basic
import NodalAlgebra.Proofs.Agreement
import NodalAlgebra.Proofs.GatherScatter

/-!
# The loop over the nodes

What a tensor operation has at a node depends on the operands' values there alone
(`TensorKernel.atNode`). The loop that gathers, applies the kernel and scatters
node after node answers with the blocks of these results, or with the error of
the first node that has none, whatever the table held before
(`foldlM_applyAtNode`). `applyTensor_of_agree` restates the whole operation without
node maps and without a table that is written to.
-/

namespace NodalAlgebra

variable {α : Type}

/-- What a tensor operation has at a node: the kernel's value for the operands'
values there, which has to be of the declared shape. -/
def TensorKernel.atNode (kernel : TensorKernel α) (op : Operator) (s : Shape)
    (fs : List (NodalFunction α)) (n : Nat) : Except EvalError (TensorValue α) := do
  let value ← (kernel (fs.filterMap (·.nodeValue? n))).mapError (.kernel op)
  if value.shape = s then return value else throw (.kernelShape s value.shape)

theorem TensorKernel.atNode_eq_ok {kernel : TensorKernel α} {op : Operator} {s : Shape}
    {fs : List (NodalFunction α)} {n : Nat} {a : TensorValue α} :
    kernel.atNode op s fs n = .ok a ↔
      kernel (fs.filterMap (·.nodeValue? n)) = .ok a ∧ a.shape = s := by
  simp only [atNode, bind_eq_ok, mapError_eq_ok]
  constructor
  · rintro ⟨b, hb, h⟩
    split at h
    · rename_i hshape
      cases h
      exact ⟨hb, hshape⟩
    · cases h
  · rintro ⟨ha, hshape⟩
    exact ⟨a, ha, by rw [if_pos hshape]; rfl⟩

theorem TensorKernel.atNode_eq_error {kernel : TensorKernel α} {op : Operator} {s : Shape}
    {fs : List (NodalFunction α)} {n : Nat} {e : EvalError} :
    kernel.atNode op s fs n = .error e ↔
      (∃ cause, kernel (fs.filterMap (·.nodeValue? n)) = .error cause ∧ e = .kernel op cause)
        ∨ ∃ a, kernel (fs.filterMap (·.nodeValue? n)) = .ok a ∧ a.shape ≠ s
          ∧ e = .kernelShape s a.shape := by
  simp only [atNode, bind_eq_error, mapError_eq_ok, mapError_eq_error]
  constructor
  · rintro (⟨cause, hc, rfl⟩ | ⟨a, ha, h⟩)
    · exact .inl ⟨cause, hc, rfl⟩
    · split at h
      · cases h
      · rename_i hshape
        cases h
        exact .inr ⟨a, ha, hshape, rfl⟩
  · rintro (⟨cause, hc, rfl⟩ | ⟨a, ha, hshape, rfl⟩)
    · exact .inl ⟨cause, hc, rfl⟩
    · exact .inr ⟨a, ha, by rw [if_neg hshape]; rfl⟩

/-! ## One node -/

/-- The map of a function's own values. -/
def NodalFunction.nodeMap (f : NodalFunction α) : NodeMap :=
  .ofBlocks f.valueShape f.space.stride f.space.nodeCount

theorem NodalFunction.build_nodeMap (f : NodalFunction α) :
    NodeMap.build f.space f.valueShape = .ok f.nodeMap := by
  rw [nodeMap, valueShape_eq_whole]
  exact NodeMap.build_valueShape f.whole

/-- At a node of all operands each of them is gathered. -/
theorem gatherAll_nodeMap {fs : List (NodalFunction α)} {n : Nat}
    (hn : ∀ f ∈ fs, n < f.space.nodeCount) :
    gatherAll n (fs.map fun f => (f.nodeMap, f)) = .ok (fs.filterMap (·.nodeValue? n)) := by
  induction fs with
  | nil => rfl
  | cons f fs ih =>
      obtain ⟨a, ha⟩ := f.exists_nodeValue? (hn f (by simp))
      have hgather : f.nodeMap.gather f.coefficients n = .ok a := NodeMap.gather_nodeValue? ha
      rw [List.map_cons, gatherAll, hgather, ih fun g hg => hn g (by simp [hg]),
        List.filterMap_cons, ha]
      rfl

/-- One round of the loop replaces the block of its node. -/
theorem applyAtNode_eq (op : Operator) (kernel : TensorKernel α) {s : Shape}
    {fs : List (NodalFunction α)} {k nodes n : Nat} (before old after : List α)
    (hfs : ∀ f ∈ fs, n < f.space.nodeCount) (hn : n < nodes) (hbefore : before.length = n * k)
    (hold : old.length = k) (hcount : s.componentCount? = .ok k) :
    applyAtNode op kernel (fs.map fun f => (f.nodeMap, f)) (.ofBlocks s k nodes)
        (before ++ old ++ after).toArray n
      = do
        let value ← Failure.ofRefusal (kernel.atNode op s fs n)
        return (before ++ value.components.toList ++ after).toArray := by
  rw [applyAtNode, gatherAll_nodeMap hfs, ok_bind, TensorKernel.atNode]
  cases kernel (fs.filterMap (·.nodeValue? n)) with
  | error cause => rfl
  | ok value =>
      by_cases hshape : value.shape = s
      · simpa [Except.mapError, hshape] using
          NodeMap.scatter_block hn hbefore hold hcount hshape
      · simpa [Except.mapError, hshape] using
          NodeMap.scatter_kernelShape (m := .ofBlocks s k nodes) hshape

/-! ## All nodes -/

/-- The loop over the nodes from `m` on leaves what stands before their blocks,
and replaces the blocks by the results at the nodes. -/
theorem foldlM_applyAtNode (op : Operator) (kernel : TensorKernel α) {s : Shape}
    {fs : List (NodalFunction α)} {k nodes : Nat} (hfs : ∀ f ∈ fs, f.space.nodeCount = nodes)
    (hcount : s.componentCount? = .ok k) (j : Nat) :
    ∀ (m : Nat) (before old : List α), m + j = nodes → before.length = m * k →
      old.length = j * k →
      (List.range' m j).foldlM
          (applyAtNode op kernel (fs.map fun f => (f.nodeMap, f)) (.ofBlocks s k nodes))
          (before ++ old).toArray
        = do
          let values ← Failure.ofRefusal ((List.range' m j).mapM (kernel.atNode op s fs))
          return (before ++ (values.map fun v => v.components.toList).flatten).toArray := by
  induction j with
  | zero =>
      intro m before old _ _ hold
      obtain rfl : old = [] := List.eq_nil_of_length_eq_zero (by simpa using hold)
      simp
  | succ j ih =>
      intro m before old hm hbefore hold
      rw [Nat.succ_mul] at hold
      -- the block of node `m` is the next one to be replaced
      have hsplit : before ++ old = before ++ old.take k ++ old.drop k := by
        rw [List.append_assoc, List.take_append_drop]
      have hround := applyAtNode_eq op kernel before (old.take k) (old.drop k)
        (fun f hf => by rw [hfs f hf]; omega)
        (show m < nodes by omega) hbefore (by rw [List.length_take]; omega) hcount
      rw [List.range'_succ, List.foldlM_cons, List.mapM_cons, hsplit, hround]
      cases hvalue : kernel.atNode op s fs m with
      | error e => rfl
      | ok value =>
          have hsize : value.components.toList.length = k := by
            rw [Array.length_toList, value.size_components, (TensorKernel.atNode_eq_ok.1 hvalue).2]
            exact Shape.componentCount_eq hcount
          have hrest := ih (m + 1) (before ++ value.components.toList) (old.drop k) (by omega)
            (by rw [List.length_append, hbefore, hsize, Nat.succ_mul])
            (by rw [List.length_drop]; omega)
          simp only [Failure.ofRefusal_ok, ok_bind, pure_eq_ok, hrest]
          cases (List.range' (m + 1) j).mapM (kernel.atNode op s fs) with
          | error e => rfl
          | ok values => simp

/-! ## The operation -/

private theorem mapM_build_nodeMap (fs : List (NodalFunction α)) :
    (fs.mapM fun f => NodeMap.build f.space f.valueShape) = .ok (fs.map (·.nodeMap)) := by
  rw [mapM_eq_ok, List.forall₂_map_right_iff, List.forall₂_same]
  exact fun f _ => f.build_nodeMap

/-- The results of the loop make the function that has them as its values. -/
private theorem ofCoefficients_eq_ofNodeValues {W : FunctionSpace α} {values : List (TensorValue α)}
    (hwhole : W.component = none) (hshape : ∀ v ∈ values, v.shape = W.whole.valueShape) :
    Failure.ofRefusal ((NodalFunction.ofCoefficients W
        (values.map fun v => v.components.toList).flatten.toArray).mapError EvalError.space)
      = Failure.mapReason EvalError.space
          (NodalFunction.ofNodeValues W (values.map (·.components))) := by
  have hall : ((values.map (·.components)).all fun v =>
      v.size == W.element.componentCount) = true := by
    rw [List.all_map, List.all_eq_true]
    intro v hv
    simp [v.size_components, hshape v hv, FunctionSpace.element_of_whole hwhole,
      FiniteElement.componentCount_valueShape]
  have htable : (values.map fun v => v.components.toList).flatten.toArray
      = (values.map (·.components)).toArray.flatten := by
    rw [← Array.toList_inj]
    simp [Function.comp_def]
  rw [NodalFunction.ofNodeValues, if_pos hall, htable]
  cases NodalFunction.ofCoefficients W (values.map (·.components)).toArray.flatten <;> rfl

/-- Values for every node, each of the shape of a space, make the function that has
them as its values. -/
private theorem tabulate_eq_ok {W : FunctionSpace α} {F : Nat → Except EvalError (TensorValue α)}
    {g : NodalFunction α} (hF : ∀ n a, F n = .ok a → a.shape = W.whole.valueShape) :
    (do
      let values ← Failure.ofRefusal ((List.range W.nodeCount).mapM F)
      Failure.mapReason EvalError.space
        (NodalFunction.ofNodeValues W (values.map TensorValue.components))) = .ok g ↔
      g.space = W ∧ g.mark = none
        ∧ ∀ n < W.nodeCount, ∃ a, F n = .ok a ∧ g.nodeValue? n = some a := by
  cases hvalues : (List.range W.nodeCount).mapM F with
  | error e =>
      obtain ⟨n, hn, -, hfail⟩ := mapM_range_eq_error.1 hvalues
      simp only [Failure.ofRefusal_error, error_bind, reduceCtorEq, false_iff]
      rintro ⟨-, -, h⟩
      obtain ⟨a, ha, -⟩ := h n hn
      rw [hfail] at ha
      cases ha
  | ok values =>
      have hsteps := mapM_eq_ok.1 hvalues
      have hlength : values.length = W.nodeCount := by simpa using hsteps.length_eq.symm
      have hvalue : ∀ n (hn : n < values.length), F n = .ok values[n] := by
        intro n hn
        simpa using hsteps.get (by simpa [← hlength] using hn) hn
      rw [Failure.ofRefusal_ok, ok_bind, Failure.mapReason_eq_ok,
        NodalFunction.ofNodeValues_eq_ok (by simpa using hlength)]
      simp only [List.length_map, List.getElem_map]
      refine ⟨?_, ?_⟩
      · rintro ⟨rfl, hmark, hblocks⟩
        refine ⟨rfl, hmark, fun n hn => ?_⟩
        have hn' : n < values.length := hlength ▸ hn
        refine ⟨values[n], hvalue n hn', NodalFunction.nodeValue?_eq_some_iff_block.2
          ⟨hn, ?_, (hblocks n hn').symm⟩⟩
        rw [hF n _ (hvalue n hn'), NodalFunction.valueShape_eq_whole]
      · rintro ⟨rfl, hmark, h⟩
        refine ⟨rfl, hmark, fun n hn => ?_⟩
        obtain ⟨a, ha, hga⟩ := h n (hlength ▸ hn)
        rw [hvalue n hn] at ha
        cases ha
        exact (NodalFunction.nodeValue?_eq_some_iff_block.1 hga).2.2.symm

private theorem tabulate_eq_error {W : FunctionSpace α}
    {F : Nat → Except EvalError (TensorValue α)} {x : Failure EvalError}
    (hwhole : W.component = none) (hF : ∀ n a, F n = .ok a → a.shape = W.whole.valueShape)
    (h : (do
      let values ← Failure.ofRefusal ((List.range W.nodeCount).mapM F)
      Failure.mapReason EvalError.space
        (NodalFunction.ofNodeValues W (values.map TensorValue.components))) = .error x) :
    ∃ n < W.nodeCount, ∃ e, F n = .error e ∧ x = .refused e := by
  cases hvalues : (List.range W.nodeCount).mapM F with
  | error e =>
      rw [hvalues] at h
      cases h
      obtain ⟨n, hn, -, hfail⟩ := mapM_range_eq_error.1 hvalues
      exact ⟨n, hn, e, hfail, rfl⟩
  | ok values =>
      have hsteps := mapM_eq_ok.1 hvalues
      obtain ⟨g, hg⟩ := NodalFunction.exists_ofNodeValues hwhole
        (values.map TensorValue.components) (by simpa using hsteps.length_eq.symm) (by
          intro v hv
          obtain ⟨a, ha, rfl⟩ := List.mem_map.1 hv
          obtain ⟨n, -, hn⟩ := exists_of_mem_forall₂ hsteps ha
          rw [a.size_components, hF n a hn, FiniteElement.componentCount_valueShape]
          rfl)
      rw [hvalues, Failure.ofRefusal_ok, ok_bind, hg] at h
      cases h

/-- Operands of a tensor operation are not all functions, or do not agree, or have
different numbers of nodes, or there is nothing against them. -/
private theorem operands_cases (vs : List (Value α)) :
    (∃ e, functionOperands vs = .error e)
      ∨ (∃ (fs : List (NodalFunction α)) (e : EvalError), vs = fs.map .function
        ∧ sharedDiscretization (fs.map (·.space)) = .error e)
      ∨ ∃ f rest, vs = (f :: rest).map .function
        ∧ (∀ g ∈ rest, g.space.discretizationId = f.space.discretizationId)
        ∧ ((∃ g ∈ rest, g.space.nodeCount ≠ f.space.nodeCount)
          ∨ ∀ g ∈ rest, g.space.nodeCount = f.space.nodeCount) := by
  cases hfs : functionOperands vs with
  | error e => exact .inl ⟨e, rfl⟩
  | ok fs =>
      obtain rfl := functionOperands_eq_ok.1 hfs
      right
      cases hd : sharedDiscretization (fs.map (·.space)) with
      | error e => exact .inl ⟨fs, e, rfl, hd⟩
      | ok d =>
          obtain ⟨V, spaces, hspaces, -, hagree⟩ := sharedDiscretization_eq_ok.1 hd
          obtain ⟨f, rest, rfl, rfl, rfl⟩ := List.map_eq_cons_iff.1 hspaces
          refine .inr ⟨f, rest, rfl, fun g hg => hagree g.space (List.mem_map.2 ⟨g, hg, rfl⟩), ?_⟩
          by_cases hcounts : ∀ g ∈ rest, g.space.nodeCount = f.space.nodeCount
          · exact .inr hcounts
          · simp only [not_forall] at hcounts
            obtain ⟨g, hg, hne⟩ := hcounts
            exact .inl ⟨g, hg, hne⟩

section Operation

variable [Zero α]

private theorem applyTensor_cons {op : Operator} {kernel : TensorKernel α} {s : Shape}
    {f : NodalFunction α} {rest : List (NodalFunction α)}
    (hagree : ∀ g ∈ rest, g.space.discretizationId = f.space.discretizationId) :
    applyTensor op kernel s ((f :: rest).map .function) = (do
      let maps := (f :: rest).map (·.nodeMap)
      let nodes := f.space.nodeCount
      if maps.any fun m => m.nodeCount != nodes then
        throw (.refused (.inconsistentSpace (.nodeCounts op)))
      let W ← FunctionSpace.ofShape f.space.whole.scalarElement s f.space.mesh
      let target ← NodeMap.build W s
      if target.nodeCount ≠ nodes then
        throw (.fault .lengthMismatch)
      let coefficients ← (List.range nodes).foldlM
        (applyAtNode op kernel (maps.zip (f :: rest)) target) (Array.replicate W.dim 0)
      Failure.ofRefusal
        ((NodalFunction.ofCoefficients W coefficients).mapError EvalError.space)) := by
  have hfunctions := functionOperands_eq_ok.2 (rfl : (f :: rest).map Value.function = _)
  have hshared : sharedDiscretization ((f :: rest).map (·.space))
      = .ok (f.space.whole.scalarElement, f.space.mesh) := by
    refine sharedDiscretization_eq_ok.2 ⟨f.space, rest.map (·.space), rfl, rfl, ?_⟩
    intro W hW
    obtain ⟨g, hg, rfl⟩ := List.mem_map.1 hW
    exact hagree g hg
  have hnodes : (((f :: rest).map (·.nodeMap)).head?.map NodeMap.nodeCount).getD 0
      = f.space.nodeCount := NodeMap.nodeCount_ofBlocks _ _ _
  rw [applyTensor, hfunctions]
  simp only [Failure.ofRefusal_ok, ok_bind, hshared, mapM_build_nodeMap, hnodes]

theorem applyTensor_of_number {op : Operator} {kernel : TensorKernel α} {s : Shape}
    {vs : List (Value α)} {e : EvalError} (h : functionOperands vs = .error e) :
    applyTensor op kernel s vs = .error (.refused e) := by
  rw [applyTensor, h]
  rfl

theorem applyTensor_of_disagree {op : Operator} {kernel : TensorKernel α} {s : Shape}
    {fs : List (NodalFunction α)} {e : EvalError}
    (h : sharedDiscretization (fs.map (·.space)) = .error e) :
    applyTensor op kernel s (fs.map .function) = .error (.refused e) := by
  have hfunctions := functionOperands_eq_ok.2 (rfl : fs.map Value.function = _)
  rw [applyTensor, hfunctions]
  simp only [Failure.ofRefusal_ok, ok_bind, h, Failure.ofRefusal_error, error_bind]

/-- Operands with different numbers of nodes are refused. -/
theorem applyTensor_of_nodeCount_ne {op : Operator} {kernel : TensorKernel α} {s : Shape}
    {f : NodalFunction α} {rest : List (NodalFunction α)}
    (hagree : ∀ g ∈ rest, g.space.discretizationId = f.space.discretizationId)
    (hne : ∃ g ∈ rest, g.space.nodeCount ≠ f.space.nodeCount) :
    applyTensor op kernel s ((f :: rest).map .function)
      = .error (.refused (.inconsistentSpace (.nodeCounts op))) := by
  obtain ⟨g, hg, hne⟩ := hne
  have hany : ((f :: rest).map (·.nodeMap)).any (fun m => m.nodeCount != f.space.nodeCount)
      = true := by
    refine List.any_eq_true.2 ⟨g.nodeMap, List.mem_map.2 ⟨g, by simp [hg], rfl⟩, ?_⟩
    simpa [NodalFunction.nodeMap] using hne
  rw [applyTensor_cons hagree]
  simp only [hany, if_true, throw_eq_error, error_bind]

/-- A tensor operation on operands that agree, without maps and tables: the
function on the space of the declared shape whose values are the results at the
nodes. -/
theorem applyTensor_of_agree {op : Operator} {kernel : TensorKernel α} {s : Shape}
    {f : NodalFunction α} {rest : List (NodalFunction α)}
    (hagree : ∀ g ∈ rest, g.space.discretizationId = f.space.discretizationId)
    (hcounts : ∀ g ∈ rest, g.space.nodeCount = f.space.nodeCount) :
    applyTensor op kernel s ((f :: rest).map .function) = (do
      let W ← FunctionSpace.ofShape f.space.whole.scalarElement s f.space.mesh
      let values ← Failure.ofRefusal
        ((List.range f.space.nodeCount).mapM (kernel.atNode op s (f :: rest)))
      Failure.mapReason .space (NodalFunction.ofNodeValues W (values.map (·.components)))) := by
  have hfs : ∀ g ∈ f :: rest, g.space.nodeCount = f.space.nodeCount :=
    List.forall_mem_cons.2 ⟨rfl, hcounts⟩
  have hany : ((f :: rest).map (·.nodeMap)).any (fun m => m.nodeCount != f.space.nodeCount)
      = false := by
    rw [List.any_eq_false]
    intro m hm
    obtain ⟨g, hg, rfl⟩ := List.mem_map.1 hm
    simpa [NodalFunction.nodeMap] using hfs g hg
  rw [applyTensor_cons hagree]
  simp only [hany, Bool.false_eq_true, if_false]
  cases hW : FunctionSpace.ofShape f.space.whole.scalarElement s f.space.mesh with
  | error e => rfl
  | ok W =>
      obtain ⟨hmesh, helement, rfl, hwhole⟩ := FunctionSpace.ofShape_eq_ok.1 hW
      have hcount : W.nodeCount = f.space.nodeCount := FunctionSpace.nodeCount_eq hmesh helement
      have hzip : ((f :: rest).map (·.nodeMap)).zip (f :: rest)
          = (f :: rest).map fun g => (g.nodeMap, g) := List.map_prod_right_eq_zip.symm
      -- the table starts as zeros, of which no block is left
      have hloop := foldlM_applyAtNode op kernel hfs W.counted f.space.nodeCount 0 []
        (List.replicate W.dim 0) (by omega)
        (by simp) (by simp [FunctionSpace.dim, FunctionSpace.stride, hcount])
      rw [List.nil_append, List.toArray_replicate, ← List.range_eq_range'] at hloop
      have hmap : NodeMap.build W W.whole.valueShape
          = .ok (.ofBlocks W.whole.valueShape W.whole.componentCount f.space.nodeCount) := by
        rw [NodeMap.build_valueShape hwhole, hcount]
        rfl
      simp only [ok_bind, hmap, NodeMap.nodeCount_ofBlocks, ne_eq, not_true, if_false, hzip, hloop]
      cases hvalues : (List.range f.space.nodeCount).mapM
          (kernel.atNode op W.whole.valueShape (f :: rest)) with
      | error e => rfl
      | ok values =>
          refine ofCoefficients_eq_ofNodeValues hwhole fun v hv => ?_
          obtain ⟨_, _, hv⟩ := exists_of_mem_forall₂ (mapM_eq_ok.1 hvalues) hv
          exact (TensorKernel.atNode_eq_ok.1 hv).2

/-- A tensor operation answers with a function exactly if its operands are
functions that agree, the declared shape has a space on their discretization, and
the kernel has a value of that shape at every node. These are the values of the
function. -/
theorem applyTensor_eq_ok {op : Operator} {kernel : TensorKernel α} {s : Shape}
    {vs : List (Value α)} {g : NodalFunction α} :
    applyTensor op kernel s vs = .ok g ↔
      ∃ f rest, vs = (f :: rest).map .function
        ∧ (∀ h ∈ rest, h.space.discretizationId = f.space.discretizationId)
        ∧ (∀ h ∈ rest, h.space.nodeCount = f.space.nodeCount)
        ∧ g.space.mesh = f.space.mesh
        ∧ g.space.whole.scalarElement = f.space.whole.scalarElement
        ∧ g.valueShape = s ∧ g.mark = none
        ∧ ∀ n < g.space.nodeCount, ∃ a,
            kernel ((f :: rest).filterMap (·.nodeValue? n)) = .ok a ∧ g.nodeValue? n = some a := by
  constructor
  · intro h
    rcases operands_cases vs with
      ⟨e, hfs⟩ | ⟨fs, e, rfl, hd⟩ | ⟨f, rest, rfl, hagree, hne | hcounts⟩
    · rw [applyTensor_of_number hfs] at h
      cases h
    · rw [applyTensor_of_disagree hd] at h
      cases h
    · rw [applyTensor_of_nodeCount_ne hagree hne] at h
      cases h
    · rw [applyTensor_of_agree hagree hcounts, bind_eq_ok] at h
      obtain ⟨W, hW, h⟩ := h
      obtain ⟨hmesh, helement, rfl, hwhole⟩ := FunctionSpace.ofShape_eq_ok.1 hW
      rw [← FunctionSpace.nodeCount_eq hmesh helement] at h
      obtain ⟨rfl, hmark, hvalues⟩ :=
        (tabulate_eq_ok fun n a ha => (TensorKernel.atNode_eq_ok.1 ha).2).1 h
      refine ⟨f, rest, rfl, hagree, hcounts, hmesh, helement, g.valueShape_eq_whole, hmark, ?_⟩
      intro n hn
      obtain ⟨a, ha, hga⟩ := hvalues n hn
      exact ⟨a, (TensorKernel.atNode_eq_ok.1 ha).1, hga⟩
  · rintro ⟨f, rest, rfl, hagree, hcounts, hmesh, helement, hshape, hmark, hvalues⟩
    rw [NodalFunction.valueShape_eq_whole] at hshape
    have hW := FunctionSpace.ofShape_eq_ok.2 ⟨hmesh, helement, hshape, g.whole⟩
    rw [applyTensor_of_agree hagree hcounts, hW, ok_bind,
      ← FunctionSpace.nodeCount_eq hmesh helement, tabulate_eq_ok fun n a ha =>
        (TensorKernel.atNode_eq_ok.1 ha).2.trans hshape.symm]
    refine ⟨rfl, hmark, fun n hn => ?_⟩
    obtain ⟨a, ha, hga⟩ := hvalues n hn
    refine ⟨a, TensorKernel.atNode_eq_ok.2 ⟨ha, ?_⟩, hga⟩
    rw [(NodalFunction.nodeValue?_eq_some_iff_block.1 hga).2.1, NodalFunction.valueShape_eq_whole,
      hshape]

/-- There is an answer if the operands agree, the declared shape has a space, and
the kernel has a value of that shape at every node. -/
theorem exists_applyTensor (op : Operator) (kernel : TensorKernel α) {s : Shape}
    {f : NodalFunction α} {rest : List (NodalFunction α)} {W : FunctionSpace α}
    (hagree : ∀ g ∈ rest, g.space.discretizationId = f.space.discretizationId)
    (hcounts : ∀ g ∈ rest, g.space.nodeCount = f.space.nodeCount)
    (hW : FunctionSpace.ofShape f.space.whole.scalarElement s f.space.mesh = .ok W)
    (hvalues : ∀ n < f.space.nodeCount, ∃ a, kernel.atNode op s (f :: rest) n = .ok a) :
    ∃ g, applyTensor op kernel s ((f :: rest).map .function) = .ok g := by
  cases h : applyTensor op kernel s ((f :: rest).map .function) with
  | ok g => exact ⟨g, rfl⟩
  | error x =>
      obtain ⟨hmesh, helement, rfl, hwhole⟩ := FunctionSpace.ofShape_eq_ok.1 hW
      rw [applyTensor_of_agree hagree hcounts, hW, ok_bind,
        ← FunctionSpace.nodeCount_eq hmesh helement] at h
      obtain ⟨n, hn, e, he, -⟩ :=
        tabulate_eq_error hwhole (fun n a ha => (TensorKernel.atNode_eq_ok.1 ha).2) h
      obtain ⟨a, ha⟩ := hvalues n (FunctionSpace.nodeCount_eq hmesh helement ▸ hn)
      rw [ha] at he
      cases he

/-- A tensor operation fails because an operand is no function, because the operands
do not agree or have different numbers of nodes, because the declared shape has no
space on their discretization, or at a node. -/
theorem applyTensor_eq_error {op : Operator} {kernel : TensorKernel α} {s : Shape}
    {vs : List (Value α)} {x : Failure EvalError} (h : applyTensor op kernel s vs = .error x) :
    (∃ e, functionOperands vs = .error e ∧ x = .refused e)
      ∨ (∃ (fs : List (NodalFunction α)) (e : EvalError), vs = fs.map .function
        ∧ sharedDiscretization (fs.map (·.space)) = .error e ∧ x = .refused e)
      ∨ ∃ f rest, vs = (f :: rest).map .function
        ∧ (∀ h ∈ rest, h.space.discretizationId = f.space.discretizationId)
        ∧ (((∃ g ∈ rest, g.space.nodeCount ≠ f.space.nodeCount)
            ∧ x = .refused (.inconsistentSpace (.nodeCounts op)))
          ∨ ((∀ h ∈ rest, h.space.nodeCount = f.space.nodeCount)
            ∧ (FunctionSpace.ofShape f.space.whole.scalarElement s f.space.mesh = .error x
              ∨ s.rank ≤ 2 ∧ ∃ n < f.space.nodeCount, ∃ e,
                kernel.atNode op s (f :: rest) n = .error e ∧ x = .refused e))) := by
  rcases operands_cases vs with ⟨e, hfs⟩ | ⟨fs, e, rfl, hd⟩ | ⟨f, rest, rfl, hagree, hne | hcounts⟩
  · rw [applyTensor_of_number hfs] at h
    cases h
    exact .inl ⟨e, hfs, rfl⟩
  · rw [applyTensor_of_disagree hd] at h
    cases h
    exact .inr (.inl ⟨fs, e, rfl, hd, rfl⟩)
  · rw [applyTensor_of_nodeCount_ne hagree hne] at h
    cases h
    exact .inr (.inr ⟨f, rest, rfl, hagree, .inl ⟨hne, rfl⟩⟩)
  · refine .inr (.inr ⟨f, rest, rfl, hagree, .inr ⟨hcounts, ?_⟩⟩)
    rw [applyTensor_of_agree hagree hcounts, bind_eq_error] at h
    rcases h with h | ⟨W, hW, h⟩
    · exact .inl h
    · obtain ⟨hmesh, helement, rfl, hwhole⟩ := FunctionSpace.ofShape_eq_ok.1 hW
      rw [← FunctionSpace.nodeCount_eq hmesh helement] at h ⊢
      exact .inr ⟨FiniteElement.rank_valueShape_le W.whole, tabulate_eq_error hwhole
        (fun n a ha => (TensorKernel.atNode_eq_ok.1 ha).2) h⟩

end Operation

end NodalAlgebra
