import NodalAlgebra.Proofs.Faults
import NodalAlgebra.Proofs.NodeLoop
import NodalAlgebra.Proofs.NodeRows

/-!
# Outcomes of tensor operations

Once its operands are functions next to each other, and once there is room for the
declared shape, a tensor operation comes to its nodes: it has a value exactly if the
kernel has a value of the declared shape at each of them, and it fails with the first node
at which the kernel has none (`evaluate_tensor_cases`). The map of the result leads from
every coefficient to one component at one node (`NodeMap.existsUnique_stands`), so that
nothing is left of the table with which the loop over the nodes begins
(`foldlM_applyAtNode_nodeMap`).
-/

namespace NodalAlgebra

variable {α : Type}

/-- A kernel has a value of the given shape. -/
def TensorKernel.Answers (kernel : TensorKernel α) (s : Shape) (args : List (TensorValue α)) :
    Prop :=
  ∃ a, kernel args = .ok a ∧ a.shape = s

/-! ## Spaces next to each other -/

/-- A space next to another one: on the same mesh and for the same scalar element. -/
structure FunctionSpace.NextTo (W V : FunctionSpace α) : Prop where
  mesh_eq : W.mesh = V.mesh
  scalarElement_eq : W.whole.scalarElement = V.whole.scalarElement

namespace FunctionSpace.NextTo

variable {U V W : FunctionSpace α}

theorem trans (h : W.NextTo V) (h' : V.NextTo U) : W.NextTo U :=
  ⟨h.mesh_eq.trans h'.mesh_eq, h.scalarElement_eq.trans h'.scalarElement_eq⟩

theorem nodeCount_eq (h : W.NextTo V) : W.nodeCount = V.nodeCount :=
  FunctionSpace.nodeCount_eq h.mesh_eq h.scalarElement_eq

theorem discretizationId_eq (h : W.NextTo V) : W.discretizationId = V.discretizationId := by
  rw [discretizationId, discretizationId, h.mesh_eq, h.scalarElement_eq]

end FunctionSpace.NextTo

/-! ## Places of a map -/

namespace NodeMap

/-- A place of a table stands for a component at a node. -/
def Stands (m : NodeMap) (i n c : Nat) : Prop :=
  ∃ row, m.indices n = .ok row ∧ row[c]? = some i

variable {V : FunctionSpace α} {s : Shape} {m : NodeMap} {i n c : Nat}

/-- Every coefficient of a whole space stands for exactly one component at one node. -/
theorem existsUnique_stands (h : build V s = .ok m) (hwhole : V.component = none)
    (hi : i < V.dim) : ∃! p : Nat × Nat, m.Stands i p.1 p.2 := by
  have hm := splits_of_build h
  obtain ⟨row, hrow, hmem⟩ := exists_row_of_build h hwhole hi
  obtain ⟨n, hn, rfl⟩ := Array.mem_iff_getElem.1 hrow
  obtain ⟨c, hc, rfl⟩ := List.mem_iff_getElem.1 hmem
  have hrow : m.rows[n]? = some m.rows[n] := Array.getElem?_eq_getElem hn
  refine ⟨(n, c), ⟨m.rows[n], indices_eq_ok.2 hrow, List.getElem?_eq_getElem hc⟩, ?_⟩
  intro (n', c') ⟨row', hrow', hc'⟩
  rw [indices_eq_ok] at hrow'
  -- rows of two nodes have no coefficient in common
  have hnode : n' = n := by
    by_contra hne
    exact hm.disjoint_rows hrow' hrow hne (List.mem_of_getElem? hc') hmem
  subst hnode
  obtain rfl : m.rows[n'] = row' := Option.some.inj (hrow.symm.trans hrow')
  -- and none has one twice
  have hcomponent : c' = c := by
    obtain ⟨hlt, heq⟩ := List.getElem?_eq_some_iff.1 hc'
    exact (List.Nodup.getElem_inj_iff (hm.nodup _ (Array.mem_of_getElem? hrow))).1 heq
  rw [hcomponent]

/-- What is gathered at a node are the coefficients that stand for its components. -/
theorem getElem?_of_stands {cs : Array α} {a : TensorValue α} (hm : m.Splits cs.size)
    (hgather : m.gather cs n = .ok a) (hplace : m.Stands i n c) :
    cs[i]? = a.components[c]? ∧ c < a.components.size := by
  obtain ⟨row, hrow, hc⟩ := hplace
  obtain ⟨-, row', hrow', hvalues⟩ := (gather_eq_ok hm).1 hgather
  obtain rfl : row = row' := Option.some.inj ((indices_eq_ok.1 hrow).symm.trans hrow')
  have hentry := congrArg (·[c]?) hvalues
  simp only [List.getElem?_map, hc, Option.map_some, Array.getElem?_toList] at hentry
  cases hcomponent : a.components[c]? with
  | none =>
      rw [hcomponent] at hentry
      cases hentry
  | some x =>
      rw [hcomponent] at hentry
      obtain ⟨hlt, -⟩ := Array.getElem?_eq_some_iff.1 hcomponent
      exact ⟨Option.some.inj hentry, hlt⟩

end NodeMap

/-! ## The loop over the nodes -/

/-- The values at the nodes, one after the other, are the coefficients of a function. -/
theorem NodalFunction.flatten_values {g : NodalFunction α} {values : List (TensorValue α)}
    (hlength : values.length = g.space.nodeCount)
    (hvalues : ∀ n (hn : n < values.length), g.nodeValue? n = some values[n]) :
    (values.map (·.components.toList)).flatten = g.coefficients.toList := by
  have hblock : ∀ n (hn : n < values.length), values[n].components.toList = g.block n := by
    intro n hn
    exact (nodeValue?_eq_some_iff_block.1 (hvalues n hn)).2.2
  have hsize : ∀ b ∈ values.map (·.components.toList), b.length = g.space.stride := by
    intro b hb
    obtain ⟨n, hn, rfl⟩ := List.mem_iff_getElem.1 hb
    rw [List.length_map] at hn
    rw [List.getElem_map, hblock n hn]
    exact g.length_block (hlength ▸ hn)
  refine ext_block (n := g.space.nodeCount) ?_ g.length_coefficients fun n hn => ?_
  · rw [length_flatten_block hsize, List.length_map, hlength]
  · have hn' : n < (values.map (·.components.toList)).length := by
      rw [List.length_map, hlength]
      exact hn
    rw [flatten_block hsize hn', List.getElem_map]
    exact hblock n (hlength ▸ hn)

section

variable {op : Operator} {kernel : TensorKernel α} {fs : List (NodalFunction α)}
  {g : NodalFunction α}

/-- The steps at the nodes of a function whose values the kernel has there. -/
theorem mapM_atNode_eq_ok (op : Operator)
    (hvalues : ∀ n < g.space.nodeCount, ∃ a,
      kernel (fs.filterMap (·.nodeValue? n)) = .ok a ∧ g.nodeValue? n = some a) :
    ∃ values, (List.range g.space.nodeCount).mapM (kernel.atNode op g.valueShape fs) = .ok values
      ∧ (values.map (·.components.toList)).flatten = g.coefficients.toList := by
  have hstep : ∀ n < g.space.nodeCount, ∃ a,
      kernel.atNode op g.valueShape fs n = .ok a ∧ g.nodeValue? n = some a := by
    intro n hn
    obtain ⟨a, ha, hga⟩ := hvalues n hn
    have hshape := (NodalFunction.nodeValue?_eq_some_iff_block.1 hga).2.1
    exact ⟨a, TensorKernel.atNode_eq_ok.2 ⟨ha, hshape⟩, hga⟩
  cases hsteps : (List.range g.space.nodeCount).mapM (kernel.atNode op g.valueShape fs) with
  | error e =>
      obtain ⟨n, hn, -, hfail⟩ := mapM_range_eq_error.1 hsteps
      obtain ⟨a, ha, -⟩ := hstep n hn
      rw [hfail] at ha
      cases ha
  | ok values =>
      have hrounds := mapM_eq_ok.1 hsteps
      have hlength : values.length = g.space.nodeCount := by simpa using hrounds.length_eq.symm
      refine ⟨values, rfl, NodalFunction.flatten_values hlength fun n hn => ?_⟩
      obtain ⟨a, ha, hga⟩ := hstep n (hlength ▸ hn)
      have hround : kernel.atNode op g.valueShape fs n = .ok values[n] := by
        simpa using hrounds.get (by simpa [← hlength] using hn) hn
      rw [ha] at hround
      cases hround
      exact hga

/-- Whatever a table of the right size holds, the loop over the nodes leaves nothing of it:
it ends with the coefficients of the function that has the kernel's values. -/
theorem foldlM_applyAtNode_nodeMap
    (hcounts : ∀ f ∈ fs, f.space.nodeCount = g.space.nodeCount)
    (hvalues : ∀ n < g.space.nodeCount, ∃ a,
      kernel (fs.filterMap (·.nodeValue? n)) = .ok a ∧ g.nodeValue? n = some a)
    {old : Array α} (hold : old.size = g.space.dim) :
    (List.range g.space.nodeCount).foldlM
        (applyAtNode op kernel (fs.map fun f => (f.nodeMap, f)) g.nodeMap) old
      = .ok g.coefficients := by
  have hcount : g.valueShape.componentCount? = .ok g.space.stride := by
    rw [g.valueShape_eq_whole]
    exact g.space.counted
  have hloop := foldlM_applyAtNode op kernel hcounts hcount g.space.nodeCount 0 [] old.toList
    (by omega) (by simp) (by rw [Array.length_toList, hold, FunctionSpace.dim])
  obtain ⟨values, hsteps, htable⟩ := mapM_atNode_eq_ok op hvalues
  rw [← List.range_eq_range', hsteps] at hloop
  simpa [NodalFunction.nodeMap, htable] using hloop

/-! ## The operation -/

/-- At a node of all functions each of them has a value. -/
theorem mapM_nodeValue? {n : Nat} (hn : ∀ f ∈ fs, n < f.space.nodeCount) :
    fs.mapM (·.nodeValue? n) = some (fs.filterMap (·.nodeValue? n)) := by
  induction fs with
  | nil => rfl
  | cons f fs ih =>
      obtain ⟨a, ha⟩ := f.exists_nodeValue? (hn f (by simp))
      rw [List.mapM_cons, ha, ih fun g hg => hn g (by simp [hg]), List.filterMap_cons, ha]
      rfl

section

variable [Zero α] {R : Rules α} {es : List (Expr α)} {s : Shape} {f : NodalFunction α}
  {rest : List (NodalFunction α)}

theorem evaluate_of_tensor {vs : List (Value α)}
    (hselect : R.select op es.length = .ok (.tensor kernel)) (hes : evaluateAll R es = .ok vs) :
    evaluate R (.operation op es s) = (applyTensor op kernel s vs).map .function := by
  rw [evaluate, hselect, hes]
  cases h : applyTensor op kernel s vs <;> simp [Kernel.apply, h, Except.map]

/-- The value of a tensor operation has the kernel's values at its nodes. -/
theorem values_of_applyTensor (h : applyTensor op kernel s ((f :: rest).map .function) = .ok g) :
    g.space.NextTo f.space ∧ g.valueShape = s
      ∧ ∀ n < g.space.nodeCount, ∃ a,
        kernel ((f :: rest).filterMap (·.nodeValue? n)) = .ok a ∧ g.nodeValue? n = some a := by
  obtain ⟨f', rest', hoperands, -, -, hmesh, helement, hshape, -, hvalues⟩ :=
    applyTensor_eq_ok.1 h
  have hinj : Function.Injective (Value.function (α := α)) := fun _ _ h => Value.function.inj h
  rw [← List.map_injective_iff.2 hinj hoperands] at hvalues
  cases List.map_injective_iff.2 hinj hoperands
  exact ⟨⟨hmesh, helement⟩, hshape, hvalues⟩

/-- Every coefficient of the value of a tensor operation stands for exactly one component
at one node, and is the component of the kernel's value there, whatever the table held with
which the loop over the nodes begins. -/
theorem places_of_applyTensor (hnext : ∀ g ∈ rest, g.space.NextTo f.space)
    (h : applyTensor op kernel s ((f :: rest).map .function) = .ok g) :
    ∃ m, NodeMap.build g.space s = .ok m
      ∧ (∀ i < g.space.dim, ∃! p : Nat × Nat, m.Stands i p.1 p.2)
      ∧ (∀ i n c, m.Stands i n c → ∃ a,
        kernel ((f :: rest).filterMap (·.nodeValue? n)) = .ok a ∧ c < a.components.size
          ∧ g.coefficients[i]? = a.components[c]?)
      ∧ ∀ old : Array α, old.size = g.space.dim →
        (List.range f.space.nodeCount).foldlM
            (applyAtNode op kernel ((f :: rest).map fun h => (h.nodeMap, h)) m) old
          = .ok g.coefficients := by
  obtain ⟨hg, rfl, hvalues⟩ := values_of_applyTensor h
  have hbuild := g.build_nodeMap
  refine ⟨g.nodeMap, hbuild, fun i hi => NodeMap.existsUnique_stands hbuild g.whole hi, ?_, ?_⟩
  · intro i n c hplace
    have hm : g.nodeMap.Splits g.coefficients.size := g.size_eq ▸ NodeMap.splits_of_build hbuild
    have hn : n < g.space.nodeCount := by
      obtain ⟨row, hrow, -⟩ := hplace
      obtain ⟨hlt, -⟩ := Array.getElem?_eq_some_iff.1 (NodeMap.indices_eq_ok.1 hrow)
      exact NodeMap.nodeCount_of_build hbuild ▸ hlt
    obtain ⟨a, ha, hga⟩ := hvalues n hn
    obtain ⟨hentry, hc⟩ := NodeMap.getElem?_of_stands hm (NodeMap.gather_nodeValue? hga) hplace
    exact ⟨a, ha, hc, hentry⟩
  · intro old hold
    have hcounts : ∀ h ∈ f :: rest, h.space.nodeCount = g.space.nodeCount := by
      intro h hh
      rw [hg.nodeCount_eq]
      rcases List.mem_cons.1 hh with rfl | hh
      · rfl
      · exact (hnext h hh).nodeCount_eq
    rw [← hg.nodeCount_eq]
    exact foldlM_applyAtNode_nodeMap hcounts hvalues hold

/-- With a value at every node the operation has a value. -/
theorem exists_applyTensor_of_answers (op : Operator)
    (hnext : ∀ g ∈ rest, g.space.NextTo f.space) (hrank : s.rank ≤ 2) (hpos : s.Positive)
    (hfits : s.Fits f.space.nodeCount)
    (hanswers : ∀ n < f.space.nodeCount,
      kernel.Answers s ((f :: rest).filterMap (·.nodeValue? n))) :
    ∃ g, applyTensor op kernel s ((f :: rest).map .function) = .ok g := by
  obtain ⟨W, hW⟩ := FunctionSpace.exists_ofShape hrank hpos.componentCount_pos hfits
  refine exists_applyTensor op kernel (fun g hg => (hnext g hg).discretizationId_eq)
    (fun g hg => (hnext g hg).nodeCount_eq) hW fun n hn => ?_
  obtain ⟨a, ha⟩ := hanswers n hn
  exact ⟨a, TensorKernel.atNode_eq_ok.2 ha⟩

/-- The operation has a value exactly if the kernel has one of the declared shape at every
node. -/
theorem exists_applyTensor_iff (op : Operator) (hnext : ∀ g ∈ rest, g.space.NextTo f.space)
    (hrank : s.rank ≤ 2) (hpos : s.Positive) (hfits : s.Fits f.space.nodeCount) :
    (∃ g, applyTensor op kernel s ((f :: rest).map .function) = .ok g) ↔
      ∀ n < f.space.nodeCount, kernel.Answers s ((f :: rest).filterMap (·.nodeValue? n)) := by
  constructor
  · intro ⟨g, hg⟩ n hn
    obtain ⟨hgf, rfl, hvalues⟩ := values_of_applyTensor hg
    obtain ⟨a, ha, hga⟩ := hvalues n (hgf.nodeCount_eq ▸ hn)
    exact ⟨a, ha, (NodalFunction.nodeValue?_eq_some_iff_block.1 hga).2.1⟩
  · exact exists_applyTensor_of_answers op hnext hrank hpos hfits

/-- With a value at every node the operation has a value, next to its operands. -/
theorem exists_evaluate_tensor (hselect : R.select op es.length = .ok (.tensor kernel))
    (hes : evaluateAll R es = .ok ((f :: rest).map .function))
    (hnext : ∀ g ∈ rest, g.space.NextTo f.space) (hrank : s.rank ≤ 2) (hpos : s.Positive)
    (hfits : s.Fits f.space.nodeCount)
    (hanswers : ∀ n < f.space.nodeCount,
      kernel.Answers s ((f :: rest).filterMap (·.nodeValue? n))) :
    ∃ g, evaluate R (.operation op es s) = .ok (.function g) ∧ g.space.NextTo f.space
      ∧ g.valueShape = s
      ∧ ∀ n < g.space.nodeCount, ∃ a,
        kernel ((f :: rest).filterMap (·.nodeValue? n)) = .ok a ∧ g.nodeValue? n = some a := by
  obtain ⟨g, hg⟩ := exists_applyTensor_of_answers op hnext hrank hpos hfits hanswers
  refine ⟨g, ?_, values_of_applyTensor hg⟩
  rw [evaluate_of_tensor hselect hes, hg]
  rfl

/-- With one operand there is a value if the kernel has one for each value of the operand. -/
theorem exists_evaluate_unary {e : Expr α} (hselect : R.select op 1 = .ok (.tensor kernel))
    (he : evaluate R e = .ok (.function f)) (hrank : s.rank ≤ 2) (hpos : s.Positive)
    (hfits : s.Fits f.space.nodeCount)
    (hanswers : ∀ n a, f.nodeValue? n = some a → kernel.Answers s [a]) :
    ∃ g, evaluate R (.operation op [e] s) = .ok (.function g) ∧ g.space.NextTo f.space
      ∧ g.valueShape = s
      ∧ ∀ n a, f.nodeValue? n = some a → ∃ b, kernel [a] = .ok b ∧ g.nodeValue? n = some b := by
  have hes : evaluateAll R [e] = .ok ([f].map .function) := evaluateAll_eq_ok.2 (.cons he .nil)
  have hvalue : ∀ n a, f.nodeValue? n = some a → [f].filterMap (·.nodeValue? n) = [a] := by
    intro n a ha
    rw [List.filterMap_cons, ha]
    rfl
  have hnone : ∀ g ∈ ([] : List (NodalFunction α)), g.space.NextTo f.space :=
    List.forall_mem_nil _
  obtain ⟨g, hg, hnext, hshape, hvalues⟩ := exists_evaluate_tensor hselect hes hnone hrank hpos
    hfits fun n hn => by
      obtain ⟨a, ha⟩ := f.exists_nodeValue? hn
      rw [hvalue n a ha]
      exact hanswers n a ha
  refine ⟨g, hg, hnext, hshape, fun n a ha => ?_⟩
  rw [← hvalue n a ha]
  exact hvalues n (hnext.nodeCount_eq ▸ (NodalFunction.nodeValue?_eq_some.1 ha).1)

/-- A tensor operation fails at the first node at which the kernel has no value of the
declared shape. -/
theorem applyTensor_of_first {n : Nat} {e : EvalError}
    (hnext : ∀ g ∈ rest, g.space.NextTo f.space) (hrank : s.rank ≤ 2) (hpos : s.Positive)
    (hfits : s.Fits f.space.nodeCount) (hn : n < f.space.nodeCount)
    (hbefore : ∀ m < n, kernel.Answers s ((f :: rest).filterMap (·.nodeValue? m)))
    (hfail : kernel.atNode op s (f :: rest) n = .error e) :
    applyTensor op kernel s ((f :: rest).map .function) = .error (.refused e) := by
  obtain ⟨W, hW⟩ := FunctionSpace.exists_ofShape hrank hpos.componentCount_pos hfits
  have hsteps :
      (List.range f.space.nodeCount).mapM (kernel.atNode op s (f :: rest)) = .error e := by
    refine mapM_range_eq_error.2 ⟨n, hn, fun m hm => ?_, hfail⟩
    obtain ⟨a, ha⟩ := hbefore m hm
    exact ⟨a, TensorKernel.atNode_eq_ok.2 ha⟩
  rw [applyTensor_of_agree (fun g hg => (hnext g hg).discretizationId_eq)
    (fun g hg => (hnext g hg).nodeCount_eq), hW, hsteps]
  rfl

/-- Without nodes the kernel does not matter. -/
theorem applyTensor_of_no_nodes (op : Operator) (kernel kernel' : TensorKernel α)
    (hnext : ∀ g ∈ rest, g.space.NextTo f.space) (hnodes : f.space.nodeCount = 0) :
    applyTensor op kernel s ((f :: rest).map .function)
      = applyTensor op kernel' s ((f :: rest).map .function) := by
  have hagree := fun g hg => (hnext g hg).discretizationId_eq
  have hcounts := fun g hg => (hnext g hg).nodeCount_eq
  rw [applyTensor_of_agree hagree hcounts, applyTensor_of_agree hagree hcounts, hnodes]
  rfl

/-- Without nodes the operation has a value, and this has no coefficients. -/
theorem exists_applyTensor_of_no_nodes (op : Operator) (kernel : TensorKernel α)
    (hnext : ∀ g ∈ rest, g.space.NextTo f.space) (hrank : s.rank ≤ 2) (hpos : s.Positive)
    (hfits : s.Fits f.space.nodeCount) (hnodes : f.space.nodeCount = 0) :
    ∃ g, applyTensor op kernel s ((f :: rest).map .function) = .ok g ∧ g.coefficients = #[] := by
  have hnone : ∀ n < f.space.nodeCount,
      kernel.Answers s ((f :: rest).filterMap (·.nodeValue? n)) := by
    intro n hn
    omega
  obtain ⟨g, hg⟩ := exists_applyTensor_of_answers op hnext hrank hpos hfits hnone
  have hdim : g.coefficients.size = 0 := by
    rw [g.size_eq, FunctionSpace.dim, (values_of_applyTensor hg).1.nodeCount_eq, hnodes,
      Nat.zero_mul]
  exact ⟨g, hg, Array.eq_empty_of_size_eq_zero hdim⟩

/-- The outcome of an operation with a tensor kernel, once its operands are functions next
to each other and there is room for the declared shape. The kernel is given the values of
the operands at a node. The operation has a value exactly if the kernel has one of the
declared shape at every node; otherwise the first node at which it has none decides on the
error. Every coefficient of the value stands for exactly one component at one node and is
the kernel's component there, so that the loop over the nodes leaves nothing of the table
with which it begins. Without nodes there is a value without coefficients, whatever the
kernel is. -/
theorem evaluate_tensor_cases (hselect : R.select op es.length = .ok (.tensor kernel))
    (hes : evaluateAll R es = .ok ((f :: rest).map .function))
    (hnext : ∀ g ∈ rest, g.space.NextTo f.space) (hrank : s.rank ≤ 2) (hpos : s.Positive)
    (hfits : s.Fits f.space.nodeCount) :
    ∃ args : Nat → List (TensorValue α),
      (∀ n < f.space.nodeCount, (f :: rest).mapM (·.nodeValue? n) = some (args n))
      ∧ ((∃ v, evaluate R (.operation op es s) = .ok v)
        ↔ ∀ n < f.space.nodeCount, kernel.Answers s (args n))
      ∧ (∀ n < f.space.nodeCount, (∀ m < n, kernel.Answers s (args m)) →
        (∀ cause, kernel (args n) = .error cause →
          evaluate R (.operation op es s) = .error (.refused (.kernel op cause)))
        ∧ ∀ a, kernel (args n) = .ok a → a.shape ≠ s →
          evaluate R (.operation op es s) = .error (.refused (.kernelShape s a.shape)))
      ∧ (∀ v, evaluate R (.operation op es s) = .ok v → ∃ g m, v = .function g
        ∧ g.space.NextTo f.space ∧ NodeMap.build g.space s = .ok m
        ∧ (∀ i < g.space.dim, ∃! p : Nat × Nat, m.Stands i p.1 p.2)
        ∧ (∀ i n c, m.Stands i n c → ∃ a, kernel (args n) = .ok a ∧ c < a.components.size
          ∧ g.coefficients[i]? = a.components[c]?)
        ∧ ∀ old : Array α, old.size = g.space.dim →
          (List.range f.space.nodeCount).foldlM
              (applyAtNode op kernel ((f :: rest).map fun h => (h.nodeMap, h)) m) old
            = .ok g.coefficients)
      ∧ (f.space.nodeCount = 0 → ∃ g, evaluate R (.operation op es s) = .ok (.function g)
        ∧ g.coefficients = #[]
        ∧ ∀ kernel', applyTensor op kernel' s ((f :: rest).map .function) = .ok g) := by
  have hnodes : ∀ g ∈ f :: rest, g.space.nodeCount = f.space.nodeCount :=
    List.forall_mem_cons.2 ⟨rfl, fun g hg => (hnext g hg).nodeCount_eq⟩
  rw [evaluate_of_tensor hselect hes]
  refine ⟨fun n => (f :: rest).filterMap (·.nodeValue? n), ?_, ?_, ?_, ?_, ?_⟩
  · intro n hn
    exact mapM_nodeValue? fun g hg => by rw [hnodes g hg]; exact hn
  · rw [← exists_applyTensor_iff op hnext hrank hpos hfits]
    constructor
    · intro ⟨v, hv⟩
      obtain ⟨g, hg, -⟩ := map_eq_ok.1 hv
      exact ⟨g, hg⟩
    · intro ⟨g, hg⟩
      exact ⟨.function g, by rw [hg]; rfl⟩
  · intro n hn hbefore
    refine ⟨fun cause hcause => ?_, fun a ha hshape => ?_⟩
    · have hfail : kernel.atNode op s (f :: rest) n = .error (.kernel op cause) :=
        TensorKernel.atNode_eq_error.2 (.inl ⟨cause, hcause, rfl⟩)
      rw [applyTensor_of_first hnext hrank hpos hfits hn hbefore hfail]
      rfl
    · have hfail : kernel.atNode op s (f :: rest) n = .error (.kernelShape s a.shape) :=
        TensorKernel.atNode_eq_error.2 (.inr ⟨a, ha, hshape, rfl⟩)
      rw [applyTensor_of_first hnext hrank hpos hfits hn hbefore hfail]
      rfl
  · intro v hv
    obtain ⟨g, hg, rfl⟩ := map_eq_ok.1 hv
    obtain ⟨m, hm⟩ := places_of_applyTensor hnext hg
    exact ⟨g, m, rfl, (values_of_applyTensor hg).1, hm⟩
  · intro hzero
    obtain ⟨g, hg, hempty⟩ :=
      exists_applyTensor_of_no_nodes op kernel hnext hrank hpos hfits hzero
    refine ⟨g, by rw [hg]; rfl, hempty, fun kernel' => ?_⟩
    rw [applyTensor_of_no_nodes op kernel' kernel hnext hzero, hg]

end

end

/-- A kernel that has a number at the first node of a segment and a vector at the second:
the second node decides. -/
theorem evaluate_tensor_cases_segment :
    let kernel : TensorKernel Int := fun
      | [.scalar x] => if x = 0 then .ok (.scalar x) else .ok (.vector #v[x, x])
      | _ => .error .singular
    let R : Rules Int :=
      { pointwise := fun _ => none
        tensor := fun op => if op = .trace then some kernel else none
        consistent := fun op => by cases op <;> rfl }
    evaluate R (.operation .trace [.function (segmentLine 0 1 0 7)] .scalar)
      = .error (.refused (.kernelShape .scalar (.vector 2))) := by
  intro kernel R
  have hfits : Shape.scalar.Fits (segmentLine (0 : Int) 1 0 7).space.nodeCount :=
    ⟨rfl, by decide, by decide⟩
  have hselect : R.select .trace 1 = .ok (.tensor kernel) := rfl
  have hes : evaluateAll R [.function (segmentLine 0 1 0 7)]
      = .ok ([segmentLine 0 1 0 7].map .function) := rfl
  have hpos : Shape.scalar.Positive := by simp [Shape.Positive, Shape.scalar]
  obtain ⟨args, hargs, -, hfirst, -⟩ :=
    evaluate_tensor_cases hselect hes (List.forall_mem_nil _) (by decide) hpos hfits
  have hzero : args 0 = [.scalar 0] := (Option.some.inj (hargs 0 (by decide))).symm
  have hone : args 1 = [.scalar 7] := (Option.some.inj (hargs 1 (by decide))).symm
  refine (hfirst 1 (by decide) fun m hm => ?_).2 (.vector #v[7, 7]) ?_ (by decide)
  · obtain rfl : m = 0 := by omega
    exact ⟨.scalar 0, by rw [hzero]; rfl, rfl⟩
  · rw [hone]
    rfl

/-- The components of a vector with 2⁶³ of them have a size, and so have the components at
no node at all. The operation has no value all the same. -/
theorem evaluate_empty_deviatoric :
    (Rules.standard : Rules Float).select .deviatoric 1 = .ok (.tensor .deviatoric)
      ∧ evaluateAll Rules.standard [.function (emptyFunction : NodalFunction Float)]
        = .ok [.function emptyFunction]
      ∧ (emptyFunction : NodalFunction Float).space.nodeCount = 0
      ∧ (Shape.vector (2 ^ 63)).rank ≤ 2 ∧ (Shape.vector (2 ^ 63)).Positive
      ∧ (Shape.vector (2 ^ 63)).componentCount? = .ok (2 ^ 63)
      ∧ (emptyFunction : NodalFunction Float).space.nodeCount * 2 ^ 63 < Size.limit
      ∧ ¬ ∃ v, evaluate Rules.standard (.operation .deviatoric
          [.function (emptyFunction : NodalFunction Float)] (.vector (2 ^ 63))) = .ok v := by
  have hfault : evaluate Rules.standard (.operation .deviatoric
      [.function (emptyFunction : NodalFunction Float)] (.vector (2 ^ 63)))
        = .error (.fault .capacity) :=
    evaluate_of_maxEntries_lt rfl (by decide) rfl (by decide) (by decide)
  have hpos : (Shape.vector (2 ^ 63)).Positive := by simp [Shape.Positive, Shape.vector]
  refine ⟨rfl, rfl, rfl, by decide, hpos, rfl, by decide, ?_⟩
  intro h
  obtain ⟨v, hv⟩ := h
  rw [hfault] at hv
  cases hv

end NodalAlgebra
