import NodalAlgebra.Proofs.Difference
import NodalAlgebra.Proofs.Faults
import NodalAlgebra.Proofs.Fields
import NodalAlgebra.Proofs.KernelOutcomes
import NodalAlgebra.Proofs.OperandSpaces

/-!
# Independence of coefficients

Two evaluations of trees that differ only in the coefficients of their functions and in
their constants go the same way (`evaluate_parallel`): they have values of the same
space, or one failure. The one thing coefficients can decide is whether a matrix that is
to be inverted is singular.
-/

namespace NodalAlgebra

variable {α : Type}

/-! ## Tensor operations -/

/-- Functions of the same spaces have values of the same shapes at a node. -/
theorem forall₂_shape_nodeValue? {fs gs : List (NodalFunction α)}
    (h : List.Forall₂ (fun f g => f.space = g.space) fs gs) {n : Nat}
    (hn : ∀ f ∈ fs, n < f.space.nodeCount) :
    List.Forall₂ (fun a b => a.shape = b.shape) (fs.filterMap (·.nodeValue? n))
      (gs.filterMap (·.nodeValue? n)) := by
  induction h with
  | nil => exact .nil
  | @cons f g fs gs hspace _ ih =>
      have hf : n < f.space.nodeCount := hn f (by simp)
      obtain ⟨a, ha⟩ := f.exists_nodeValue? hf
      obtain ⟨b, hb⟩ := g.exists_nodeValue? (hspace ▸ hf)
      have hshape : a.shape = b.shape := by
        rw [(NodalFunction.nodeValue?_eq_some.1 ha).2.1, (NodalFunction.nodeValue?_eq_some.1 hb).2.1,
          NodalFunction.valueShape, NodalFunction.valueShape, hspace]
      simp only [List.filterMap_cons, ha, hb]
      exact .cons hshape (ih fun f' hf' => hn f' (by simp [hf']))

/-- At a node a kernel that is decided by shapes goes the same way for functions of the
same spaces. -/
theorem TensorKernel.atNode_parallel {kernel : TensorKernel α} {stop : KernelError → Prop}
    (hkernel : kernel.DecidedByShapes stop) (op : Operator) (s : Shape)
    {fs gs : List (NodalFunction α)} (h : List.Forall₂ (fun f g => f.space = g.space) fs gs)
    {n : Nat} (hn : ∀ f ∈ fs, n < f.space.nodeCount) :
    Parallel (fun e => ∃ cause, stop cause ∧ e = .kernel op cause) (fun a b => a.shape = b.shape)
      (kernel.atNode op s fs n) (kernel.atNode op s gs n) := by
  have hvalues := hkernel _ _ (forall₂_shape_nodeValue? h hn)
  refine (hvalues.mapError (EvalError.kernel op) fun cause hc => ⟨cause, hc, rfl⟩).bind ?_
  intro a b hab
  by_cases hshape : a.shape = s
  · rw [if_pos hshape, if_pos (hab ▸ hshape)]
    exact .answers hab
  · rw [if_neg hshape, if_neg (hab ▸ hshape), hab]
    exact .failures _

/-- Node values of the same lengths make functions of a space, or fail to do so in the
same way. -/
theorem NodalFunction.ofNodeValues_parallel (V : FunctionSpace α)
    {values values' : List (Array α)}
    (h : List.Forall₂ (fun a b => a.size = b.size) values values') :
    Parallel (fun _ => False) (fun f g => f.space = g.space) (ofNodeValues V values)
      (ofNodeValues V values') := by
  have hsizes : values.map Array.size = values'.map Array.size := map_congr_forall₂ h
  have hall : (values.all fun v => v.size == V.element.componentCount)
      = values'.all fun v => v.size == V.element.componentCount := by
    have hcongr := congrArg (List.all · fun n => n == V.element.componentCount) hsizes
    simpa [List.all_map, Function.comp_def] using hcongr
  have hsize : values.toArray.flatten.size = values'.toArray.flatten.size := by
    rw [Array.size_flatten, Array.size_flatten, List.map_toArray, List.map_toArray, hsizes]
  unfold ofNodeValues
  rw [hall]
  split
  · exact (ofCoefficients_parallel V (fun _ => False) hsize).ofRefusal fun _ => False.elim
  · exact .failures _

section

variable [Zero α]

/-- Operands that agree go the same way as others in the same spaces. -/
theorem applyTensor_parallel_of_agree {kernel : TensorKernel α} {stop : KernelError → Prop}
    (hkernel : kernel.DecidedByShapes stop) (op : Operator) (s : Shape) {f g : NodalFunction α}
    {fs gs : List (NodalFunction α)}
    (h : List.Forall₂ (fun f g => f.space = g.space) (f :: fs) (g :: gs))
    (hagree : ∀ f' ∈ fs, f'.space.discretizationId = f.space.discretizationId)
    (hagree' : ∀ g' ∈ gs, g'.space.discretizationId = g.space.discretizationId)
    (hcounts : ∀ f' ∈ fs, f'.space.nodeCount = f.space.nodeCount)
    (hcounts' : ∀ g' ∈ gs, g'.space.nodeCount = g.space.nodeCount) :
    Parallel (fun x => ∃ cause, stop cause ∧ x = .refused (.kernel op cause))
      (fun f g => f.space = g.space) (applyTensor op kernel s ((f :: fs).map .function))
      (applyTensor op kernel s ((g :: gs).map .function)) := by
  have hspace : f.space = g.space := by
    cases h with
    | cons hspace _ => exact hspace
  rw [applyTensor_of_agree hagree hcounts, applyTensor_of_agree hagree' hcounts', ← hspace]
  have hnodes : List.Forall₂
      (fun n n' => Parallel (fun e => ∃ cause, stop cause ∧ e = .kernel op cause)
        (fun a b => a.shape = b.shape) (kernel.atNode op s (f :: fs) n)
        (kernel.atNode op s (g :: gs) n'))
      (List.range f.space.nodeCount) (List.range f.space.nodeCount) := by
    rw [List.forall₂_same]
    intro n hn
    have hf : n < f.space.nodeCount := List.mem_range.1 hn
    exact TensorKernel.atNode_parallel hkernel op s h
      (List.forall_mem_cons.2 ⟨hf, fun f' hf' => hcounts f' hf' ▸ hf⟩)
  have hW := Parallel.refl (fun x => ∃ cause, stop cause ∧ x = .refused (.kernel op cause))
    (R := Eq) (fun _ => rfl) (FunctionSpace.ofShape f.space.whole.scalarElement s f.space.mesh)
  refine hW.bind ?_
  rintro W _ rfl
  refine ((Parallel.mapM hnodes).ofRefusal ?_).bind fun values values' hvalues => ?_
  · rintro _ ⟨cause, hcause, rfl⟩
    exact ⟨cause, hcause, rfl⟩
  · refine (NodalFunction.ofNodeValues_parallel W ?_).mapReason _ _
    rw [List.forall₂_map_left_iff, List.forall₂_map_right_iff]
    refine hvalues.imp fun a b hab => ?_
    rw [a.size_components, b.size_components, hab]

/-- A tensor operation whose kernel is decided by shapes has results in one space for
operands with the same spaces, or fails in the same way. -/
theorem applyTensor_parallel {kernel : TensorKernel α} {stop : KernelError → Prop}
    (hkernel : kernel.DecidedByShapes stop) (op : Operator) (s : Shape) {vs ws : List (Value α)}
    (h : List.Forall₂ Value.SameSpace vs ws) :
    Parallel (fun x => ∃ cause, stop cause ∧ x = .refused (.kernel op cause))
      (fun f g => f.space = g.space) (applyTensor op kernel s vs) (applyTensor op kernel s ws) := by
  have hfunctions := functionOperands_parallel (fun _ => False) h
  cases hfs : functionOperands vs with
  | error e =>
      rw [hfs] at hfunctions
      rw [applyTensor_of_number hfs, applyTensor_of_number hfunctions.eq_error]
      exact .failures _
  | ok fs =>
      rw [hfs] at hfunctions
      obtain ⟨gs, hgs, hspaces⟩ := hfunctions.exists_ok
      obtain rfl := functionOperands_eq_ok.1 hfs
      obtain rfl := functionOperands_eq_ok.1 hgs
      have hmap : fs.map (·.space) = gs.map (·.space) := map_congr_forall₂ hspaces
      cases hd : sharedDiscretization (fs.map (·.space)) with
      | error e =>
          rw [applyTensor_of_disagree hd, applyTensor_of_disagree (hmap ▸ hd)]
          exact .failures _
      | ok d =>
          obtain ⟨V, rest, hV, -, hagree⟩ := sharedDiscretization_eq_ok.1 hd
          obtain ⟨f, fs, rfl, rfl, rfl⟩ := List.map_eq_cons_iff.1 hV
          obtain ⟨g, gs, rfl, hfg, hrest⟩ := List.map_eq_cons_iff.1 (hmap.symm.trans hV)
          have hagree' := hagree
          rw [List.forall_mem_map] at hagree
          rw [← hrest, ← hfg, List.forall_mem_map] at hagree'
          -- equal spaces have equally many nodes: both runs pass this check, or neither does
          by_cases hcounts : ∀ W ∈ fs.map (·.space), W.nodeCount = f.space.nodeCount
          · have hcounts' := hcounts
            rw [List.forall_mem_map] at hcounts
            rw [← hrest, ← hfg, List.forall_mem_map] at hcounts'
            exact applyTensor_parallel_of_agree hkernel op s hspaces hagree hagree' hcounts hcounts'
          · have hcounts' := hcounts
            simp only [List.forall_mem_map, not_forall] at hcounts
            simp only [← hrest, ← hfg, List.forall_mem_map, not_forall] at hcounts'
            obtain ⟨f', hf', hne⟩ := hcounts
            obtain ⟨g', hg', hne'⟩ := hcounts'
            rw [applyTensor_of_nodeCount_ne hagree ⟨f', hf', hne⟩,
              applyTensor_of_nodeCount_ne hagree' ⟨g', hg', hne'⟩]
            exact .failures _

/-- A kernel whose tensor part is decided by shapes goes the same way for operands with
the same spaces. -/
theorem Kernel.apply_parallel {kernel : Kernel α} {stop : KernelError → Prop}
    (hkernel : ∀ k, kernel = .tensor k → k.DecidedByShapes stop) (op : Operator) (s : Shape)
    {vs ws : List (Value α)} (h : List.Forall₂ Value.SameSpace vs ws) :
    Parallel (fun x => ∃ cause, stop cause ∧ x = .refused (.kernel op cause))
      (fun f g => f.space = g.space) (kernel.apply op s vs) (kernel.apply op s ws) := by
  cases kernel with
  | pointwise k =>
      exact (applyPointwise_parallel op k (fun _ => False) h).ofRefusal fun _ => False.elim
  | tensor k => exact applyTensor_parallel (hkernel k rfl) op s h

end

/-! ## Trees -/

section

variable [Zero α] [One α] [Add α] [Sub α] [Mul α] [Div α] [NatCast α] [Elementary α]
  [LinearSolver α]

end

/-! ## Sums on a segment -/

section

variable [Zero α] [One α] (entries : Array α) (h : entries.size = 8) (x : α)

end

end NodalAlgebra
