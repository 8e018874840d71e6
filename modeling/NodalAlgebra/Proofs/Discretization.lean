import NodalAlgebra.Proofs.MeshIdentity
import NodalAlgebra.Proofs.PointwiseNodes
import NodalAlgebra.Proofs.Tree

/-!
# Discretizations of values

An operation answers with a function of the discretization that its operands have
in common, on the mesh of one of them (`Kernel.apply_discretization`). Along a tree
the discretization of the value is therefore that of every function at a leaf
(`discretizationId_of_evaluate`), and since identities stand for meshes, there is one
mesh only (`mesh_of_evaluate`).
-/

namespace NodalAlgebra

variable {α : Type}

/-! ## Functions on constructed meshes -/

section

variable {supply : MeshSupply} {meshes : List (Mesh α)}

/-- On constructed meshes, functions of one discretization have the same nodes. -/
theorem MeshSupply.Issued.nodeCount_eq (hissued : supply.Issued meshes) {f g : NodalFunction α}
    (hf : f.space.mesh ∈ meshes) (hg : g.space.mesh ∈ meshes)
    (h : g.space.discretizationId = f.space.discretizationId) :
    g.space.nodeCount = f.space.nodeCount :=
  FunctionSpace.nodeCount_eq (hissued.eq_of_id hg hf (congrArg Prod.snd h)) (congrArg Prod.fst h)

/-- On constructed meshes, functions of one element and one mesh identity are functions
of one space. -/
theorem MeshSupply.Issued.space_eq (hissued : supply.Issued meshes) {f g : NodalFunction α}
    (hf : f.space.mesh ∈ meshes) (hg : g.space.mesh ∈ meshes)
    (helement : f.space.element = g.space.element) (hid : f.space.mesh.id = g.space.mesh.id) :
    f.space = g.space := by
  rw [FunctionSpace.element_of_whole f.whole, FunctionSpace.element_of_whole g.whole] at helement
  exact FunctionSpace.ext_data (hissued.eq_of_id hf hg hid) helement (f.whole.trans g.whole.symm)

/-- Functions in compatible spaces on constructed meshes have equally many
coefficients. -/
theorem MeshSupply.Issued.size_eq (hissued : supply.Issued meshes) {f g : NodalFunction α}
    (hf : f.space.mesh ∈ meshes) (hg : g.space.mesh ∈ meshes)
    (h : f.space.isCompatible g.space = true) : f.coefficients.size = g.coefficients.size := by
  obtain ⟨helement, hid⟩ := FunctionSpace.isCompatible_eq_true.1 h
  rw [f.size_eq, g.size_eq, hissued.space_eq hf hg helement hid]

end

/-! ## One operation -/

theorem applyPointwise_discretization {op : Operator} {kernel : PointwiseKernel α}
    {vs : List (Value α)} {g : NodalFunction α} (h : applyPointwise op kernel vs = .ok g) :
    (∃ f, .function f ∈ vs ∧ g.space.mesh = f.space.mesh)
      ∧ ∀ f, .function f ∈ vs → f.space.discretizationId = g.space.discretizationId := by
  obtain ⟨⟨f₀, hf₀, hspace⟩, hspaces⟩ := space_of_applyPointwise h
  refine ⟨⟨f₀, hf₀, by rw [hspace]⟩, ?_⟩
  intro f hf
  obtain ⟨hwhole, hid⟩ := hspaces f hf
  rw [FunctionSpace.discretizationId, FunctionSpace.discretizationId, hwhole, hid]

theorem applyTensor_discretization [Zero α] {op : Operator} {kernel : TensorKernel α} {s : Shape}
    {vs : List (Value α)} {g : NodalFunction α} (h : applyTensor op kernel s vs = .ok g) :
    (∃ f, .function f ∈ vs ∧ g.space.mesh = f.space.mesh)
      ∧ ∀ f, .function f ∈ vs → f.space.discretizationId = g.space.discretizationId := by
  obtain ⟨f₀, rest, rfl, hagree, -, hmesh, helement, -, -, -⟩ := applyTensor_eq_ok.1 h
  have hresult : g.space.discretizationId = f₀.space.discretizationId := by
    rw [FunctionSpace.discretizationId, FunctionSpace.discretizationId, hmesh, helement]
  refine ⟨⟨f₀, by simp, hmesh⟩, ?_⟩
  intro f hf
  obtain ⟨f', hf', h⟩ := List.mem_map.1 hf
  cases h
  rcases List.mem_cons.1 hf' with rfl | hf'
  · exact hresult.symm
  · rw [hagree f hf', hresult]

/-- An operation answers with an unmarked function on the mesh of one operand and
of the discretization of all of them. -/
theorem Kernel.apply_discretization [Zero α] {kernel : Kernel α} {op : Operator} {s : Shape}
    {vs : List (Value α)} {g : NodalFunction α} (h : kernel.apply op s vs = .ok g) :
    g.mark = none
      ∧ (∃ f, .function f ∈ vs ∧ g.space.mesh = f.space.mesh)
      ∧ ∀ f, .function f ∈ vs → f.space.discretizationId = g.space.discretizationId := by
  cases kernel with
  | pointwise k =>
      have h' := Failure.ofRefusal_eq_ok.1 h
      exact ⟨(applyPointwise_eq_ok.1 h').2.2, applyPointwise_discretization h'⟩
  | tensor k =>
      obtain ⟨_, _, _, _, _, _, _, _, hmark, _⟩ := applyTensor_eq_ok.1 h
      exact ⟨hmark, applyTensor_discretization h⟩

/-! ## Trees -/

section

variable [Zero α] {R : Rules α} {e : Expr α} {g : NodalFunction α}

/-- The functions at the leaves of a tree that evaluates to a function have the
discretization of the result. -/
theorem discretizationId_of_evaluate (h : evaluate R e = .ok (.function g)) {f : NodalFunction α}
    (hf : f ∈ e.functions) : f.space.discretizationId = g.space.discretizationId := by
  induction e using Expr.induct generalizing g with
  | function f' =>
      cases h
      obtain rfl : f = f' := by simpa [Expr.functions] using hf
      rfl
  | constant x => simp [Expr.functions] at hf
  | operation op es s ih =>
      obtain ⟨kernel, vs, _, -, hvs, hg, hvalue⟩ := evaluate_operation_eq_ok.1 h
      cases hvalue
      obtain ⟨e, he, hfe⟩ := Expr.mem_functions_operation.1 hf
      obtain ⟨v, hv, hev⟩ := exists_of_mem_forall₂ hvs.flip he
      cases v with
      | number x =>
          -- a number has no functions below it
          rw [evaluate_eq_number.1 hev] at hfe
          simp [Expr.functions] at hfe
      | function g' =>
          rw [ih e he hev hfe]
          exact (Kernel.apply_discretization hg).2.2 g' hv

/-- The result of a tree lives on the mesh of a function at one of its leaves. -/
theorem exists_mesh_of_evaluate (h : evaluate R e = .ok (.function g)) :
    ∃ f ∈ e.functions, g.space.mesh = f.space.mesh := by
  induction e using Expr.induct generalizing g with
  | function f =>
      cases h
      exact ⟨f, by simp [Expr.functions], rfl⟩
  | constant x => cases h
  | operation op es s ih =>
      obtain ⟨kernel, vs, _, -, hvs, hg, hvalue⟩ := evaluate_operation_eq_ok.1 h
      cases hvalue
      obtain ⟨f, hf, hmesh⟩ := (Kernel.apply_discretization hg).2.1
      obtain ⟨e, he, hef⟩ := exists_of_mem_forall₂ hvs hf
      obtain ⟨f', hf', hmesh'⟩ := ih e he hef
      exact ⟨f', Expr.mem_functions_operation.2 ⟨e, he, hf'⟩, hmesh.trans hmesh'⟩

theorem exists_nodeCount_of_evaluate (h : evaluate R e = .ok (.function g)) :
    ∃ f ∈ e.functions, f.space.nodeCount = g.space.nodeCount := by
  obtain ⟨f, hf, hmesh⟩ := exists_mesh_of_evaluate h
  exact ⟨f, hf, FunctionSpace.nodeCount_eq hmesh.symm
    (congrArg Prod.fst (discretizationId_of_evaluate h hf))⟩

/-- Over constructed meshes, all functions at the leaves of a tree that evaluates to
a function live on the mesh of the result. -/
theorem mesh_of_evaluate {supply : MeshSupply} {meshes : List (Mesh α)}
    (hissued : supply.Issued meshes) (hmeshes : ∀ f ∈ e.functions, f.space.mesh ∈ meshes)
    (h : evaluate R e = .ok (.function g)) {f : NodalFunction α} (hf : f ∈ e.functions) :
    f.space.mesh = g.space.mesh := by
  obtain ⟨f', hf', hmesh⟩ := exists_mesh_of_evaluate h
  have hid : f.space.mesh.id = f'.space.mesh.id := by
    rw [← hmesh]
    exact congrArg Prod.snd (discretizationId_of_evaluate h hf)
  rw [hmesh]
  exact hissued.eq_of_id (hmeshes f hf) (hmeshes f' hf') hid

/-- Evaluation marks no function. -/
theorem mark_of_evaluate (h : evaluate R e = .ok (.function g))
    (hmarks : ∀ f ∈ e.functions, f.mark = none) : g.mark = none := by
  cases e with
  | function f =>
      cases h
      exact hmarks g (by simp [Expr.functions])
  | constant x => cases h
  | operation op es s =>
      obtain ⟨_, _, _, -, -, hg, hvalue⟩ := evaluate_operation_eq_ok.1 h
      cases hvalue
      exact (Kernel.apply_discretization hg).1

end

end NodalAlgebra
