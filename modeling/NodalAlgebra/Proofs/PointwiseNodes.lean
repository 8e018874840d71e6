import NodalAlgebra.Evaluate.Nodal
import NodalAlgebra.Proofs.Agreement
import NodalAlgebra.Proofs.NodeLoop

/-!
# Kernels at the nodes

A kernel maps whole arrays of coefficients or runs from node to node. Either way
the result has at every node what the kernel makes of the operands' values there
(`Kernel.apply_at`), a number being the same at all nodes.
-/

namespace NodalAlgebra

variable {α : Type}

/-- What a value is at a node: the value of a function there, or the number. -/
def Value.at? (n : Nat) : Value α → Option (NodeValue α)
  | .function f => (f.nodeValue? n).map .tensor
  | .number x => some (.number x)

/-! ## Pointwise kernels on arrays -/

/-- A pointwise kernel applies to an array, to two arrays of one length, or to an
array and a number. -/
theorem PointwiseKernel.apply_eq_ok {kernel : PointwiseKernel α}
    {args : List (PointwiseOperand α)} {cs : Array α} :
    kernel.apply args = .ok cs ↔
      (∃ φ a, kernel = .unary φ ∧ args = [.array a] ∧ cs = a.map φ)
        ∨ (∃ φ a b, kernel = .binary φ ∧ args = [.array a, .array b] ∧ a.size = b.size
          ∧ cs = Array.zipWith φ a b)
        ∨ (∃ φ a y, kernel = .binary φ ∧ args = [.array a, .number y]
          ∧ cs = a.map fun x => φ x y)
        ∨ ∃ φ x b, kernel = .binary φ ∧ args = [.number x, .array b]
          ∧ cs = b.map fun y => φ x y := by
  constructor
  · intro h
    unfold apply at h
    split at h
    · cases h
      exact .inl ⟨_, _, rfl, rfl, rfl⟩
    · cases h
    · split at h
      · rename_i hsize
        cases h
        exact .inr (.inl ⟨_, _, _, rfl, rfl, hsize, rfl⟩)
      · cases h
    · cases h
      exact .inr (.inr (.inl ⟨_, _, _, rfl, rfl, rfl⟩))
    · cases h
      exact .inr (.inr (.inr ⟨_, _, _, rfl, rfl, rfl⟩))
    · cases h
    · cases h
  · rintro (⟨φ, a, rfl, rfl, rfl⟩ | ⟨φ, a, b, rfl, rfl, hsize, rfl⟩ | ⟨φ, a, y, rfl, rfl, rfl⟩
      | ⟨φ, x, b, rfl, rfl, rfl⟩)
    · rfl
    · rw [apply, if_pos hsize]
    · rfl
    · rfl

/-- All arrays have the length of the result. -/
theorem PointwiseKernel.size_of_apply {kernel : PointwiseKernel α}
    {args : List (PointwiseOperand α)} {cs a : Array α} (h : kernel.apply args = .ok cs)
    (ha : .array a ∈ args) : cs.size = a.size := by
  rcases apply_eq_ok.1 h with ⟨φ, b, rfl, rfl, rfl⟩ | ⟨φ, b, c, rfl, rfl, hsize, rfl⟩
    | ⟨φ, b, y, rfl, rfl, rfl⟩ | ⟨φ, x, b, rfl, rfl, rfl⟩
  · obtain rfl : a = b := by simpa using ha
    exact Array.size_map
  · rw [Array.size_zipWith, ← hsize, Nat.min_self]
    rcases (by simpa using ha : a = b ∨ a = c) with rfl | rfl
    · rfl
    · exact hsize
  · obtain rfl : a = b := by simpa using ha
    exact Array.size_map
  · obtain rfl : a = b := by simpa using ha
    exact Array.size_map

/-- A pointwise kernel fails by the number of operands, for want of arrays, or by their
lengths. -/
theorem PointwiseKernel.apply_eq_error {kernel : PointwiseKernel α}
    {args : List (PointwiseOperand α)} {e : ApplyError} (h : kernel.apply args = .error e) :
    (e = .arity kernel.arity args.length ∧ args.length ≠ kernel.arity)
      ∨ (e = .noArrayOperand ∧ ∃ x, .number x ∈ args)
      ∨ ∃ a b, args = [.array a, .array b] ∧ a.size ≠ b.size
        ∧ e = .lengthMismatch a.size b.size := by
  unfold apply at h
  split at h
  · cases h
  · cases h
    exact .inr (.inl ⟨rfl, _, List.mem_singleton.2 rfl⟩)
  · split at h
    · cases h
    · rename_i hsize
      cases h
      exact .inr (.inr ⟨_, _, rfl, hsize, rfl⟩)
  · cases h
  · cases h
  · cases h
    exact .inr (.inl ⟨rfl, _, List.mem_cons_self⟩)
  · rename_i hunary hnumber hbinary hright hleft hnumbers
    cases h
    refine .inl ⟨rfl, fun hlength => ?_⟩
    -- a list of the right length would have matched an earlier case
    cases kernel with
    | unary φ =>
        obtain ⟨v, rfl⟩ := List.length_eq_one_iff.1 hlength
        cases v with
        | array a => exact hunary φ a rfl rfl
        | number x => exact hnumber φ x rfl rfl
    | binary φ =>
        obtain ⟨v, w, rfl⟩ := List.length_eq_two.1 hlength
        cases v with
        | array a =>
            cases w with
            | array b => exact hbinary φ a b rfl rfl
            | number y => exact hright φ a y rfl rfl
        | number x =>
            cases w with
            | array b => exact hleft φ x b rfl rfl
            | number y => exact hnumbers φ x y rfl rfl

/-- A pointwise operation answers with the function on the shared space that has
the mapped coefficients. -/
theorem applyPointwise_eq_ok {op : Operator} {kernel : PointwiseKernel α} {vs : List (Value α)}
    {g : NodalFunction α} :
    applyPointwise op kernel vs = .ok g ↔
      sharedSpace vs = .ok g.space ∧ kernel.apply (vs.map Value.operand) = .ok g.coefficients
        ∧ g.mark = none := by
  simp only [applyPointwise, bind_eq_ok, mapError_eq_ok, NodalFunction.ofCoefficients_eq_ok]
  constructor
  · rintro ⟨V, hV, cs, hcs, rfl, rfl, hmark⟩
    exact ⟨hV, hcs, hmark⟩
  · rintro ⟨hV, hcs, hmark⟩
    exact ⟨g.space, hV, g.coefficients, hcs, rfl, rfl, hmark⟩

/-- What a kernel makes of the coefficients of some values are coefficients of their
shared space. -/
theorem exists_applyPointwise (op : Operator) {kernel : PointwiseKernel α} {vs : List (Value α)}
    {V : FunctionSpace α} {cs : Array α} (hV : sharedSpace vs = .ok V)
    (hcs : kernel.apply (vs.map Value.operand) = .ok cs) :
    ∃ g, applyPointwise op kernel vs = .ok g := by
  obtain ⟨f, rest, hfs, rfl, -⟩ := sharedSpace_eq_ok.1 hV
  have hf : .function f ∈ vs := mem_filterMap_function?.1 (by simp [hfs])
  have hsize : cs.size = f.space.dim := by
    rw [PointwiseKernel.size_of_apply hcs (List.mem_map.2 ⟨_, hf, rfl⟩), f.size_eq]
  exact ⟨⟨f.space, cs, none, f.whole, hsize⟩, applyPointwise_eq_ok.2 ⟨hV, hcs, rfl⟩⟩

/-- The result of a pointwise operation lives in the space of a function among the
operands, and the spaces of the others have its element and the identity of its mesh. -/
theorem space_of_applyPointwise {op : Operator} {kernel : PointwiseKernel α}
    {vs : List (Value α)} {g : NodalFunction α} (h : applyPointwise op kernel vs = .ok g) :
    (∃ f, .function f ∈ vs ∧ g.space = f.space)
      ∧ ∀ f, .function f ∈ vs →
          f.space.whole = g.space.whole ∧ f.space.mesh.id = g.space.mesh.id := by
  obtain ⟨f₀, rest, hfs, hspace, hcompatible⟩ := sharedSpace_eq_ok.1 (applyPointwise_eq_ok.1 h).1
  have hmem : ∀ f, .function f ∈ vs ↔ f ∈ f₀ :: rest := by
    intro f
    rw [← mem_filterMap_function?, hfs]
  refine ⟨⟨f₀, (hmem f₀).2 (by simp), hspace⟩, ?_⟩
  intro f hf
  rw [hspace]
  rcases List.mem_cons.1 ((hmem f).1 hf) with rfl | hf
  · exact ⟨rfl, rfl⟩
  · obtain ⟨hwhole, hid⟩ := (FunctionSpace.isCompatible_iff f₀.whole f.whole).1 (hcompatible f hf)
    exact ⟨hwhole.symm, hid.symm⟩

/-- A pointwise operation fails because its operands share no space, or because its
kernel does not apply to their coefficients. -/
theorem applyPointwise_eq_error {op : Operator} {kernel : PointwiseKernel α} {vs : List (Value α)}
    {e : EvalError} (h : applyPointwise op kernel vs = .error e) :
    sharedSpace vs = .error e
      ∨ ∃ V cause, sharedSpace vs = .ok V ∧ kernel.apply (vs.map Value.operand) = .error cause
        ∧ e = .ofApply op cause := by
  cases hV : sharedSpace vs with
  | error e' =>
      rw [applyPointwise, hV] at h
      cases h
      exact .inl rfl
  | ok V =>
      cases hcs : kernel.apply (vs.map Value.operand) with
      | error cause =>
          rw [applyPointwise, hV, hcs] at h
          cases h
          exact .inr ⟨V, cause, rfl, rfl, rfl⟩
      | ok cs =>
          obtain ⟨g, hg⟩ := exists_applyPointwise op hV hcs
          rw [hg] at h
          cases h

theorem Value.operand_eq_array {v : Value α} {cs : Array α} :
    v.operand = .array cs ↔ ∃ f, v = .function f ∧ f.coefficients = cs := by
  cases v <;> simp [operand]

theorem Value.operand_eq_number {v : Value α} {x : α} :
    v.operand = .number x ↔ v = .number x := by
  cases v <;> simp [operand]

/-! ## Pointwise kernels at a node -/

namespace NodalFunction

/-- Mapping the coefficients maps the components at every node. -/
theorem nodeValue?_of_map {f g : NodalFunction α} {φ : α → α} {n : Nat} {a : TensorValue α}
    (hspace : g.space = f.space) (hcs : g.coefficients = f.coefficients.map φ)
    (ha : f.nodeValue? n = some a) : g.nodeValue? n = some (a.map φ) := by
  obtain ⟨hn, hshape, hblock⟩ := nodeValue?_eq_some_iff_block.1 ha
  refine nodeValue?_eq_some_iff_block.2 ⟨hspace ▸ hn, ?_, ?_⟩
  · rw [TensorValue.shape_map, hshape, valueShape, valueShape, hspace]
  · rw [TensorValue.components_map, Array.toList_map, hblock, block, block, hspace, hcs,
      Array.toList_map, List.map_take, List.map_drop]

/-- Combining the coefficients of two functions combines their components at
every node. -/
theorem nodeValue?_of_zipWith {f f' g : NodalFunction α} {φ : α → α → α} {n : Nat}
    {a b : TensorValue α} (hspace : g.space = f.space)
    (hwhole : f.space.whole = f'.space.whole)
    (hcs : g.coefficients = Array.zipWith φ f.coefficients f'.coefficients)
    (ha : f.nodeValue? n = some a) (hb : f'.nodeValue? n = some b) :
    ∃ c, TensorValue.zipWith? φ a b = some c ∧ g.nodeValue? n = some c := by
  obtain ⟨hn, hshape, hblock⟩ := nodeValue?_eq_some_iff_block.1 ha
  obtain ⟨-, hshape', hblock'⟩ := nodeValue?_eq_some_iff_block.1 hb
  obtain ⟨c, hc⟩ := g.exists_nodeValue? (hspace ▸ hn)
  obtain ⟨-, hcshape, hcblock⟩ := nodeValue?_eq_some_iff_block.1 hc
  have hstride : f'.space.stride = f.space.stride := by
    rw [FunctionSpace.stride, FunctionSpace.stride, hwhole]
  refine ⟨c, TensorValue.zipWith?_eq_some.2 ⟨?_, ?_, ?_⟩, hc⟩
  · rw [hshape, hshape', valueShape_eq_whole, valueShape_eq_whole, hwhole]
  · rw [hcshape, hshape, valueShape, valueShape, hspace]
  · rw [← Array.toList_inj, hcblock, Array.toList_zipWith, hblock, hblock', block, block, block,
      hspace, hcs, hstride, Array.toList_zipWith, List.drop_zipWith, List.take_zipWith]

end NodalFunction

/-- Functions of one element with arrays of one length have the same nodes. -/
theorem NodalFunction.nodeCount_eq_of_size {f g : NodalFunction α}
    (hwhole : f.space.whole = g.space.whole)
    (hsize : f.coefficients.size = g.coefficients.size) :
    f.space.nodeCount = g.space.nodeCount := by
  have hstride : g.space.stride = f.space.stride := by
    rw [FunctionSpace.stride, FunctionSpace.stride, hwhole]
  rw [f.size_eq, g.size_eq, FunctionSpace.dim, FunctionSpace.dim, hstride] at hsize
  exact Nat.eq_of_mul_eq_mul_right f.space.stride_pos hsize

theorem applyPointwise_at {op : Operator} {kernel : PointwiseKernel α} {vs : List (Value α)}
    {g : NodalFunction α} (h : applyPointwise op kernel vs = .ok g) {n : Nat}
    (hn : n < g.space.nodeCount) :
    ∃ args a, List.Forall₂ (fun v arg => v.at? n = some arg) vs args
      ∧ kernel.applyAt args = some a ∧ g.nodeValue? n = some a := by
  obtain ⟨hspace, happly, -⟩ := applyPointwise_eq_ok.1 h
  obtain ⟨f₀, rest, hfs, hspace, hcompatible⟩ := sharedSpace_eq_ok.1 hspace
  rcases PointwiseKernel.apply_eq_ok.1 happly with ⟨φ, cs, rfl, hvs, hcs⟩
    | ⟨φ, cs, cs', rfl, hvs, hsize, hcs⟩ | ⟨φ, cs, y, rfl, hvs, hcs⟩ | ⟨φ, x, cs, rfl, hvs, hcs⟩
  · obtain ⟨v, rfl, hv⟩ := List.map_eq_singleton_iff.1 hvs
    obtain ⟨f, rfl, rfl⟩ := Value.operand_eq_array.1 hv
    obtain ⟨rfl, -⟩ : f = f₀ ∧ rest = [] := by simpa [eq_comm] using hfs
    obtain ⟨a, ha⟩ := f.exists_nodeValue? (hspace ▸ hn)
    exact ⟨[.tensor a], a.map φ, .cons (by simp [Value.at?, ha]) .nil, rfl,
      NodalFunction.nodeValue?_of_map hspace hcs ha⟩
  · obtain ⟨v, w, rfl, hv, hw⟩ := map_eq_pair hvs
    obtain ⟨f, rfl, rfl⟩ := Value.operand_eq_array.1 hv
    obtain ⟨f', rfl, rfl⟩ := Value.operand_eq_array.1 hw
    obtain ⟨rfl, rfl⟩ : f = f₀ ∧ rest = [f'] := by simpa [eq_comm] using hfs
    have hwhole : f.space.whole = f'.space.whole :=
      ((FunctionSpace.isCompatible_iff f.whole f'.whole).1 (hcompatible f' (by simp))).1
    have hn' : n < f'.space.nodeCount :=
      NodalFunction.nodeCount_eq_of_size hwhole hsize ▸ hspace ▸ hn
    obtain ⟨a, ha⟩ := f.exists_nodeValue? (hspace ▸ hn)
    obtain ⟨b, hb⟩ := f'.exists_nodeValue? hn'
    obtain ⟨c, hc, hgc⟩ := NodalFunction.nodeValue?_of_zipWith hspace hwhole hcs ha hb
    exact ⟨[.tensor a, .tensor b], c,
      .cons (by simp [Value.at?, ha]) (.cons (by simp [Value.at?, hb]) .nil), hc, hgc⟩
  · obtain ⟨v, w, rfl, hv, hw⟩ := map_eq_pair hvs
    obtain ⟨f, rfl, rfl⟩ := Value.operand_eq_array.1 hv
    obtain rfl := Value.operand_eq_number.1 hw
    obtain ⟨rfl, -⟩ : f = f₀ ∧ rest = [] := by simpa [eq_comm] using hfs
    obtain ⟨a, ha⟩ := f.exists_nodeValue? (hspace ▸ hn)
    exact ⟨[.tensor a, .number y], a.map fun x => φ x y,
      .cons (by simp [Value.at?, ha]) (.cons rfl .nil), rfl,
      NodalFunction.nodeValue?_of_map hspace hcs ha⟩
  · obtain ⟨v, w, rfl, hv, hw⟩ := map_eq_pair hvs
    obtain rfl := Value.operand_eq_number.1 hv
    obtain ⟨f, rfl, rfl⟩ := Value.operand_eq_array.1 hw
    obtain ⟨rfl, -⟩ : f = f₀ ∧ rest = [] := by simpa [eq_comm] using hfs
    obtain ⟨a, ha⟩ := f.exists_nodeValue? (hspace ▸ hn)
    exact ⟨[.number x, .tensor a], a.map fun y => φ x y,
      .cons rfl (.cons (by simp [Value.at?, ha]) .nil), rfl,
      NodalFunction.nodeValue?_of_map hspace hcs ha⟩

/-! ## Tensor kernels at a node -/

private theorem forall₂_at_functions {fs : List (NodalFunction α)} {n : Nat}
    (hn : ∀ f ∈ fs, n < f.space.nodeCount) :
    List.Forall₂ (fun (v : Value α) arg => v.at? n = some arg) (fs.map .function)
      ((fs.filterMap (·.nodeValue? n)).map .tensor) := by
  induction fs with
  | nil => exact .nil
  | cons f fs ih =>
      obtain ⟨a, ha⟩ := f.exists_nodeValue? (hn f (by simp))
      rw [List.map_cons, List.filterMap_cons, ha, List.map_cons]
      exact .cons (by simp [Value.at?, ha]) (ih fun g hg => hn g (by simp [hg]))

theorem mapM_tensor? (values : List (TensorValue α)) :
    (values.map NodeValue.tensor).mapM NodeValue.tensor? = some values := by
  rw [mapM_eq_some, List.forall₂_map_left_iff, List.forall₂_same]
  exact fun _ _ => rfl

theorem applyTensor_at [Zero α] {op : Operator} {kernel : TensorKernel α} {s : Shape}
    {vs : List (Value α)} {g : NodalFunction α} (h : applyTensor op kernel s vs = .ok g) {n : Nat}
    (hn : n < g.space.nodeCount) :
    ∃ args a, List.Forall₂ (fun v arg => v.at? n = some arg) vs args
      ∧ (Kernel.tensor kernel).applyAt args = some a ∧ g.nodeValue? n = some a := by
  obtain ⟨f, rest, rfl, -, hcounts, hmesh, helement, -, -, hvalues⟩ := applyTensor_eq_ok.1 h
  have hfs : ∀ f' ∈ f :: rest, n < f'.space.nodeCount := by
    have hf : n < f.space.nodeCount := FunctionSpace.nodeCount_eq hmesh helement ▸ hn
    exact List.forall_mem_cons.2 ⟨hf, fun f' hf' => hcounts f' hf' ▸ hf⟩
  obtain ⟨a, ha, hga⟩ := hvalues n hn
  refine ⟨_, a, forall₂_at_functions hfs, ?_, hga⟩
  simp only [Kernel.applyAt, mapM_tensor?, Option.bind_eq_bind, Option.bind_some, ha,
    Except.toOption]

/-- Whichever way a kernel is applied, the result has at a node what the kernel
makes of the operands' values there. -/
theorem Kernel.apply_at [Zero α] {kernel : Kernel α} {op : Operator} {s : Shape}
    {vs : List (Value α)} {g : NodalFunction α} (h : kernel.apply op s vs = .ok g) {n : Nat}
    (hn : n < g.space.nodeCount) :
    ∃ args a, List.Forall₂ (fun v arg => v.at? n = some arg) vs args
      ∧ kernel.applyAt args = some a ∧ g.nodeValue? n = some a := by
  cases kernel with
  | pointwise k => exact applyPointwise_at (Failure.ofRefusal_eq_ok.1 h) hn
  | tensor k => exact applyTensor_at h hn

end NodalAlgebra
