import NodalAlgebra.Proofs.LeafDiscretizations

/-!
# The order of operands

Whether operands agree is found out by comparing each of them with the first one. What is
compared belongs to one space alone: its element (`FunctionSpace.identity`) or its scalar
element (`FunctionSpace.discretizationId`), with the identity of its mesh. Operands therefore
agree exactly if any two of them do (`exists_sharedSpace_iff`,
`exists_sharedDiscretization_iff`), in whatever order they stand. The order decides only which
of the agreeing spaces, and which of the meshes of one identity, is the answer
(`sharedSpace_eq_first`, `sharedDiscretization_eq_first`).
-/

namespace NodalAlgebra

variable {α : Type}

/-! ## Values -/

namespace FunctionSpace

variable {V W : FunctionSpace α}

/-- What two spaces have in common exactly if they are compatible. -/
def identity (V : FunctionSpace α) : FiniteElement × MeshId := (V.element, V.mesh.id)

theorem identity_eq :
    V.identity = W.identity ↔ V.element = W.element ∧ V.mesh.id = W.mesh.id := by
  rw [identity, identity, Prod.mk.injEq]

theorem isCompatible_iff_identity : V.isCompatible W = true ↔ W.identity = V.identity := by
  rw [isCompatible_eq_true, ← identity_eq, eq_comm]

theorem discretizationId_eq_iff :
    V.discretizationId = W.discretizationId ↔
      V.element.scalarElement = W.element.scalarElement ∧ V.mesh.id = W.mesh.id := by
  rw [discretizationId, discretizationId, Prod.mk.injEq, scalarElement_element,
    scalarElement_element]

end FunctionSpace

section

variable {vs : List (Value α)} {V : FunctionSpace α}

/-- Values share a space if there are functions among them, and any two of these have spaces
of one element on meshes of one identity. -/
theorem exists_sharedSpace_iff :
    (∃ V, sharedSpace vs = .ok V) ↔
      (∃ f, .function f ∈ vs) ∧ ∀ f, .function f ∈ vs → ∀ g, .function g ∈ vs →
        f.space.element = g.space.element ∧ f.space.mesh.id = g.space.mesh.id := by
  simp only [← FunctionSpace.identity_eq, ← mem_filterMap_function?, sharedSpace_eq_ok,
    FunctionSpace.isCompatible_iff_identity]
  cases vs.filterMap Value.function? with
  | nil => simp
  | cons f rest =>
      have hpairs := forall_mem_eq_iff (κ := fun g : NodalFunction α => g.space.identity)
        (a := f) (l := rest)
      constructor
      · rintro ⟨_, _, _, hfs, -, hrest⟩
        cases hfs
        exact ⟨⟨f, List.mem_cons_self⟩, hpairs.1 hrest⟩
      · rintro ⟨-, hall⟩
        exact ⟨f.space, f, rest, rfl, rfl, hpairs.2 hall⟩

/-- The shared space is that of the first function. -/
theorem sharedSpace_eq_first (h : sharedSpace vs = .ok V) :
    ∃ f, vs.findSome? Value.function? = some f ∧ V = f.space := by
  obtain ⟨f, rest, hfs, rfl, -⟩ := sharedSpace_eq_ok.1 h
  exact ⟨f, by rw [← List.head?_filterMap, hfs, List.head?_cons], rfl⟩

theorem function_mem_of_findSome? {f : NodalFunction α}
    (h : vs.findSome? Value.function? = some f) : .function f ∈ vs := by
  obtain ⟨v, hv, hf⟩ := List.exists_of_findSome?_eq_some h
  exact mem_filterMap_function?.1 (List.mem_filterMap.2 ⟨v, hv, hf⟩)

theorem sharedSpace_eq_noFunctionOperand :
    sharedSpace vs = .error .noFunctionOperand ↔ ∀ f, .function f ∉ vs := by
  simp only [← mem_filterMap_function?]
  constructor
  · intro h
    rcases sharedSpace_eq_error h with ⟨-, hnone⟩ | ⟨_, _, _, -, -, -, hspaces⟩
    · simp [hnone]
    · cases hspaces
  · intro h
    rw [sharedSpace, List.eq_nil_iff_forall_not_mem.2 h]
    rfl

theorem exists_sharedSpace_perm {ws : List (Value α)} (h : vs.Perm ws) :
    (∃ V, sharedSpace vs = .ok V) ↔ ∃ W, sharedSpace ws = .ok W := by
  simp only [exists_sharedSpace_iff, h.mem_iff]

/-- The spaces shared by the same values in two orders are compatible. -/
theorem isCompatible_of_perm {ws : List (Value α)} {W : FunctionSpace α} (h : vs.Perm ws)
    (hV : sharedSpace vs = .ok V) (hW : sharedSpace ws = .ok W) : V.isCompatible W = true := by
  obtain ⟨f, hf, hVf⟩ := sharedSpace_eq_first hV
  obtain ⟨g, hg, hWg⟩ := sharedSpace_eq_first hW
  have hgvs : .function g ∈ vs := h.mem_iff.2 (function_mem_of_findSome? hg)
  rw [hVf, hWg, FunctionSpace.isCompatible_eq_true]
  exact (exists_sharedSpace_iff.1 ⟨V, hV⟩).2 f (function_mem_of_findSome? hf) g hgvs

end

/-! ## Spaces -/

section

variable {Vs : List (FunctionSpace α)} {d : ScalarElement × Mesh α}

/-- Some spaces share a discretization if any two of them have one scalar element and meshes
of one identity. -/
theorem exists_sharedDiscretization_iff :
    (∃ d, sharedDiscretization Vs = .ok d) ↔
      Vs ≠ [] ∧ ∀ V ∈ Vs, ∀ W ∈ Vs,
        V.element.scalarElement = W.element.scalarElement ∧ V.mesh.id = W.mesh.id := by
  simp only [← FunctionSpace.discretizationId_eq_iff, sharedDiscretization_eq_ok]
  cases Vs with
  | nil => simp
  | cons V rest =>
      rw [← forall_mem_eq_iff]
      constructor
      · rintro ⟨_, _, _, hVs, -, hrest⟩
        cases hVs
        exact ⟨List.cons_ne_nil V rest, hrest⟩
      · rintro ⟨-, hrest⟩
        exact ⟨_, V, rest, rfl, rfl, hrest⟩

/-- The shared discretization is that of the first space. Every space has its scalar element,
and a mesh of its identity. -/
theorem sharedDiscretization_eq_first (h : sharedDiscretization Vs = .ok d) :
    (∃ V, Vs.head? = some V ∧ d.2 = V.mesh)
      ∧ ∀ V ∈ Vs, V.element.scalarElement = d.1 ∧ V.mesh.id = d.2.id := by
  obtain ⟨V, rest, rfl, rfl, hrest⟩ := sharedDiscretization_eq_ok.1 h
  refine ⟨⟨V, rfl, rfl⟩, fun W hW => ?_⟩
  rw [← FunctionSpace.scalarElement_element, ← FunctionSpace.discretizationId_eq_iff]
  exact forall_mem_eq_iff.1 hrest W hW V List.mem_cons_self

theorem sharedDiscretization_eq_noFunctionOperand :
    sharedDiscretization Vs = .error .noFunctionOperand ↔ Vs = [] := by
  constructor
  · intro h
    rcases sharedDiscretization_eq_error h with
      ⟨-, hnone⟩ | ⟨_, -, _, -, ⟨-, helements⟩ | ⟨-, hmeshes⟩⟩
    · exact hnone
    · cases helements
    · cases hmeshes
  · rintro rfl
    rfl

theorem exists_sharedDiscretization_perm {Ws : List (FunctionSpace α)} (h : Vs.Perm Ws) :
    (∃ d, sharedDiscretization Vs = .ok d) ↔ ∃ d, sharedDiscretization Ws = .ok d := by
  simp only [exists_sharedDiscretization_iff, h.mem_iff, ne_eq, ← List.length_eq_zero_iff,
    h.length_eq]

/-- The discretizations shared by the same spaces in two orders have one scalar element, and
their meshes one identity. -/
theorem sharedDiscretization_perm {Ws : List (FunctionSpace α)} {d' : ScalarElement × Mesh α}
    (h : Vs.Perm Ws) (hd : sharedDiscretization Vs = .ok d)
    (hd' : sharedDiscretization Ws = .ok d') : d.1 = d'.1 ∧ d.2.id = d'.2.id := by
  obtain ⟨⟨V, hfirst, -⟩, hall⟩ := sharedDiscretization_eq_first hd
  have hV : V ∈ Vs := List.mem_of_head? hfirst
  obtain ⟨helement, hmesh⟩ := hall V hV
  obtain ⟨helement', hmesh'⟩ := (sharedDiscretization_eq_first hd').2 V (h.mem_iff.1 hV)
  exact ⟨helement.symm.trans helement', hmesh.symm.trans hmesh'⟩

end

/-! ## Any order -/

/-- Values share a space if there are functions among them and the spaces of these have one
element and one mesh identity; it is the space of the first function, and values without a
function are refused for that. Spaces, whole ones and sub-spaces alike, share a discretization
if there are some and all have one scalar element and one mesh identity; it is that element
with the mesh of the first space. In another order the same items share a space or
a discretization too, and the spaces are compatible, or the discretizations have one element
and one mesh identity. -/
theorem agreement_in_any_order :
    (∀ vs : List (Value α),
      ((∃ V, sharedSpace vs = .ok V) ↔
        (∃ f, .function f ∈ vs) ∧ ∀ f, .function f ∈ vs → ∀ g, .function g ∈ vs →
          f.space.element = g.space.element ∧ f.space.mesh.id = g.space.mesh.id)
      ∧ (∀ V, sharedSpace vs = .ok V →
        ∃ f, vs.findSome? Value.function? = some f ∧ V = f.space)
      ∧ (sharedSpace vs = .error .noFunctionOperand ↔ ∀ f, .function f ∉ vs)
      ∧ ∀ ws, vs.Perm ws →
        ((∃ V, sharedSpace vs = .ok V) ↔ ∃ W, sharedSpace ws = .ok W)
        ∧ ∀ V W, sharedSpace vs = .ok V → sharedSpace ws = .ok W → V.isCompatible W = true)
    ∧ ∀ Vs : List (FunctionSpace α),
      ((∃ d, sharedDiscretization Vs = .ok d) ↔
        Vs ≠ [] ∧ ∀ V ∈ Vs, ∀ W ∈ Vs,
          V.element.scalarElement = W.element.scalarElement ∧ V.mesh.id = W.mesh.id)
      ∧ (∀ d, sharedDiscretization Vs = .ok d →
        (∃ V, Vs.head? = some V ∧ d.2 = V.mesh)
          ∧ ∀ V ∈ Vs, V.element.scalarElement = d.1 ∧ V.mesh.id = d.2.id)
      ∧ (sharedDiscretization Vs = .error .noFunctionOperand ↔ Vs = [])
      ∧ ∀ Ws, Vs.Perm Ws →
        ((∃ d, sharedDiscretization Vs = .ok d) ↔ ∃ d, sharedDiscretization Ws = .ok d)
        ∧ ∀ d d', sharedDiscretization Vs = .ok d → sharedDiscretization Ws = .ok d' →
          d.1 = d'.1 ∧ d.2.id = d'.2.id := by
  constructor
  · intro vs
    exact ⟨exists_sharedSpace_iff, fun V h => sharedSpace_eq_first h,
      sharedSpace_eq_noFunctionOperand, fun ws h =>
        ⟨exists_sharedSpace_perm h, fun V W hV hW => isCompatible_of_perm h hV hW⟩⟩
  · intro Vs
    exact ⟨exists_sharedDiscretization_iff, fun d h => sharedDiscretization_eq_first h,
      sharedDiscretization_eq_noFunctionOperand, fun Ws h =>
        ⟨exists_sharedDiscretization_perm h, fun d d' hd hd' => sharedDiscretization_perm h hd hd'⟩⟩

/-- A number and two functions of one element share the space of the first function, and in
another order a compatible one. A number and two functions of different elements share none in
either order. The space of matrices on a segment, one of its sub-spaces and the space of numbers
share a discretization in both. -/
theorem agreement_in_any_order_segment :
    let u := segmentLine (0 : Float) 1 2 3
    let v := segmentLine (0 : Float) 1 5 7
    let w := segmentPiece (0 : Float) 1 5
    let matrices := segmentMatrices (0 : Float) 1
    let component := matrices.sub ⟨3, by decide⟩
    let numbers := segmentNumbers (0 : Float) 1
    (∃ V W, sharedSpace [.number 2, .function u, .function v] = .ok V ∧ V = u.space
        ∧ sharedSpace [.function v, .number 2, .function u] = .ok W ∧ V.isCompatible W = true)
      ∧ (¬ ∃ V, sharedSpace [.number 2, .function u, .function w] = .ok V)
      ∧ (¬ ∃ V, sharedSpace [.function w, .number 2, .function u] = .ok V)
      ∧ ∃ d d', sharedDiscretization [matrices, component, numbers] = .ok d
        ∧ sharedDiscretization [numbers, matrices, component] = .ok d'
        ∧ d.1 = d'.1 ∧ d.2.id = d'.2.id := by
  intro u v w matrices component numbers
  obtain ⟨hvalues, hspaces⟩ := agreement_in_any_order (α := Float)
  have hmixed : ¬ ∃ V, sharedSpace [.number 2, .function u, .function w] = .ok V := by
    intro h
    obtain ⟨-, hagree⟩ := (hvalues _).1.1 h
    obtain ⟨helement, -⟩ := hagree u (by simp) w (by simp)
    exact scalarElement_segmentPiece_ne 0 1 2 3 5 (congrArg FiniteElement.scalarElement helement)
  refine ⟨?_, hmixed, ?_, ?_⟩
  · obtain ⟨hshared, hfirst, -, horder⟩ := hvalues [.number 2, .function u, .function v]
    have hline : ∀ f, .function f ∈ [Value.number 2, .function u, .function v] →
        f.space = numbers := by
      intro f hf
      rcases (by simpa using hf : f = u ∨ f = v) with rfl | rfl
      · exact rfl
      · exact rfl
    obtain ⟨V, hV⟩ : ∃ V, sharedSpace [.number 2, .function u, .function v] = .ok V := by
      refine hshared.2 ⟨⟨u, by simp⟩, fun f hf g hg => ?_⟩
      rw [hline f hf, hline g hg]
      exact ⟨rfl, rfl⟩
    obtain ⟨f, hf, hspace⟩ := hfirst V hV
    cases hf
    obtain ⟨hother, hcompatible⟩ := horder [.function v, .number 2, .function u]
      (List.perm_append_singleton (Value.function v) [Value.number 2, Value.function u])
    obtain ⟨W, hW⟩ := hother.1 ⟨V, hV⟩
    exact ⟨V, W, hV, hspace, hW, hcompatible V W hV hW⟩
  · obtain ⟨-, -, -, horder⟩ := hvalues [.number 2, .function u, .function w]
    intro h
    refine hmixed ((horder _ ?_).1.2 h)
    exact List.perm_append_singleton (Value.function w) [Value.number 2, Value.function u]
  · obtain ⟨hshared, -, -, horder⟩ := hspaces [matrices, component, numbers]
    have hlinear : ∀ V ∈ [matrices, component, numbers],
        V.element.scalarElement = ⟨.lagrange, 1, .interval⟩ ∧ V.mesh.id = ⟨0⟩ := by
      intro V hV
      rcases (by simpa using hV : V = matrices ∨ V = component ∨ V = numbers) with rfl | rfl | rfl
      · exact ⟨rfl, rfl⟩
      · exact ⟨rfl, rfl⟩
      · exact ⟨rfl, rfl⟩
    obtain ⟨d, hd⟩ : ∃ d, sharedDiscretization [matrices, component, numbers] = .ok d := by
      refine hshared.2 ⟨List.cons_ne_nil _ _, fun V hV W hW => ?_⟩
      obtain ⟨helement, hmesh⟩ := hlinear V hV
      obtain ⟨helement', hmesh'⟩ := hlinear W hW
      exact ⟨helement.trans helement'.symm, hmesh.trans hmesh'.symm⟩
    obtain ⟨hother, hsame⟩ := horder [numbers, matrices, component]
      (List.perm_append_singleton numbers [matrices, component])
    obtain ⟨d', hd'⟩ := hother.1 ⟨d, hd⟩
    exact ⟨d, d', hd, hd', hsame d d' hd hd'⟩

end NodalAlgebra
