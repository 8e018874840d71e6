import NodalAlgebra.Evaluate.Basic
import NodalAlgebra.Proofs.Blocks
import NodalAlgebra.Proofs.Sequence

/-!
# When spaces agree

The space that some values share is that of the first function among them, if all
others are compatible with it (`sharedSpace_eq_ok`); the discretization that some
spaces share is that of the first, if all others have its scalar element and the
identity of its mesh (`sharedDiscretization_eq_ok`). Spaces of one scalar element
on one mesh have the same nodes (`FunctionSpace.nodeCount_eq`).
-/

namespace NodalAlgebra

variable {α : Type}

/-! ## Spaces on one mesh -/

namespace FunctionSpace

/-- What two spaces have to have in common to be combined node by node. -/
def discretizationId (V : FunctionSpace α) : ScalarElement × MeshId :=
  (V.whole.scalarElement, V.mesh.id)

theorem placement_eq_of_scalarElement {V W : FunctionSpace α}
    (h : V.whole.scalarElement = W.whole.scalarElement) : V.placement = W.placement :=
  Option.some.inj (V.placement_eq.symm.trans (h ▸ W.placement_eq))

theorem nodeCount_eq {V W : FunctionSpace α} (hmesh : V.mesh = W.mesh)
    (helement : V.whole.scalarElement = W.whole.scalarElement) : V.nodeCount = W.nodeCount := by
  rw [nodeCount, nodeCount, hmesh, placement_eq_of_scalarElement helement]

theorem isCompatible_eq_true {V W : FunctionSpace α} :
    V.isCompatible W = true ↔ V.element = W.element ∧ V.mesh.id = W.mesh.id := by
  rw [isCompatible, Bool.and_eq_true, beq_iff_eq, beq_iff_eq]

theorem isCompatible_iff {V W : FunctionSpace α} (hV : V.component = none)
    (hW : W.component = none) :
    V.isCompatible W = true ↔ V.whole = W.whole ∧ V.mesh.id = W.mesh.id := by
  rw [isCompatible_eq_true, element_of_whole hV, element_of_whole hW]

theorem isCompatible_eq_false {V W : FunctionSpace α} :
    V.isCompatible W = false ↔ W.element ≠ V.element ∨ W.mesh.id ≠ V.mesh.id := by
  rw [← Bool.not_eq_true, isCompatible_eq_true, not_and_or]
  exact or_congr ⟨Ne.symm, Ne.symm⟩ ⟨Ne.symm, Ne.symm⟩

end FunctionSpace

theorem FiniteElement.ofShape?_eq_some {e : ScalarElement} {s : Shape} {element : FiniteElement} :
    FiniteElement.ofShape? e s = some element ↔
      element.scalarElement = e ∧ element.valueShape = s := by
  obtain ⟨dims⟩ := s
  constructor
  · intro h
    match dims, h with
    | [], h => cases h; exact ⟨rfl, rfl⟩
    | [_], h => cases h; exact ⟨rfl, rfl⟩
    | [_, _], h => cases h; exact ⟨rfl, rfl⟩
  · rintro ⟨rfl, h⟩
    cases element <;> cases h <;> rfl

theorem FiniteElement.ofShape?_eq_none {e : ScalarElement} {s : Shape} :
    FiniteElement.ofShape? e s = none ↔ 2 < s.rank := by
  obtain ⟨dims⟩ := s
  match dims with
  | [] => simp [ofShape?, Shape.rank]
  | [_] => simp [ofShape?, Shape.rank]
  | [_, _] => simp [ofShape?, Shape.rank]
  | _ :: _ :: _ :: _ => simp [ofShape?, Shape.rank]

/-- The space of a shape on a mesh is the whole space with values of that shape. -/
theorem FunctionSpace.ofShape_eq_ok {e : ScalarElement} {s : Shape} {M : Mesh α}
    {W : FunctionSpace α} :
    FunctionSpace.ofShape e s M = .ok W ↔
      W.mesh = M ∧ W.whole.scalarElement = e ∧ W.whole.valueShape = s ∧ W.component = none := by
  unfold ofShape
  split
  · rename_i h
    simp only [reduceCtorEq, false_iff]
    rintro ⟨-, rfl, rfl, -⟩
    rw [FiniteElement.ofShape?_eq_none] at h
    exact absurd (FiniteElement.rank_valueShape_le W.whole) (Nat.not_le_of_lt h)
  · rename_i element h
    obtain ⟨rfl, rfl⟩ := FiniteElement.ofShape?_eq_some.1 h
    rw [Failure.mapReason_eq_ok, FunctionSpace.build_eq_ok]
    constructor
    · rintro ⟨hmesh, rfl, hwhole⟩
      exact ⟨hmesh, rfl, rfl, hwhole⟩
    · rintro ⟨hmesh, helement, hshape, hwhole⟩
      have h' := FiniteElement.ofShape?_eq_some.2 ⟨helement, hshape⟩
      exact ⟨hmesh, Option.some.inj (h'.symm.trans h), hwhole⟩

/-! ## The space of some values -/

@[simp] theorem functions_cons_function (f : NodalFunction α) (vs : List (Value α)) :
    (Value.function f :: vs).filterMap Value.function? = f :: vs.filterMap Value.function? := rfl

@[simp] theorem functions_cons_number (x : α) (vs : List (Value α)) :
    (Value.number x :: vs).filterMap Value.function? = vs.filterMap Value.function? := rfl

theorem mem_filterMap_function? {vs : List (Value α)} {f : NodalFunction α} :
    f ∈ vs.filterMap Value.function? ↔ .function f ∈ vs := by
  rw [List.mem_filterMap]
  constructor
  · rintro ⟨v, hv, h⟩
    cases v with
    | function g => cases h; exact hv
    | number x => cases h
  · intro h
    exact ⟨.function f, h, rfl⟩

private theorem agreeOnSpace_eq_ok {first V : FunctionSpace α} {rest : List (FunctionSpace α)} :
    agreeOnSpace first rest = .ok V ↔ V = first ∧ ∀ W ∈ rest, first.isCompatible W = true := by
  induction rest with
  | nil =>
      rw [agreeOnSpace]
      simpa using eq_comm
  | cons W rest ih =>
      rw [agreeOnSpace]
      by_cases h : first.isCompatible W = true <;> simp [h, ih]

private theorem agreeOnSpace_eq_error {first : FunctionSpace α} {rest : List (FunctionSpace α)}
    {e : EvalError} (h : agreeOnSpace first rest = .error e) :
    ∃ W ∈ rest, first.isCompatible W = false
      ∧ e = .inconsistentSpace (.spaces W.element W.mesh.id first.element first.mesh.id) := by
  induction rest with
  | nil => simp [agreeOnSpace] at h
  | cons W rest ih =>
      rw [agreeOnSpace] at h
      split at h
      · obtain ⟨W', hmem, h'⟩ := ih h
        exact ⟨W', by simp [hmem], h'⟩
      · rename_i hW
        cases h
        exact ⟨W, by simp, by simpa using hW, rfl⟩

/-- Values share the space of the first function among them, if the others are
compatible with it. -/
theorem sharedSpace_eq_ok {vs : List (Value α)} {V : FunctionSpace α} :
    sharedSpace vs = .ok V ↔
      ∃ f rest, vs.filterMap Value.function? = f :: rest ∧ V = f.space
        ∧ ∀ g ∈ rest, f.space.isCompatible g.space = true := by
  unfold sharedSpace
  cases vs.filterMap Value.function? with
  | nil => simp
  | cons f rest => simp [agreeOnSpace_eq_ok]

theorem sharedSpace_eq_error {vs : List (Value α)} {e : EvalError}
    (h : sharedSpace vs = .error e) :
    (e = .noFunctionOperand ∧ vs.filterMap Value.function? = [])
      ∨ ∃ f rest g, vs.filterMap Value.function? = f :: rest ∧ g ∈ rest
        ∧ f.space.isCompatible g.space = false
        ∧ e = .inconsistentSpace (.spaces g.space.element g.space.mesh.id f.space.element
            f.space.mesh.id) := by
  unfold sharedSpace at h
  cases hfs : vs.filterMap Value.function? with
  | nil =>
      rw [hfs] at h
      cases h
      exact .inl ⟨rfl, rfl⟩
  | cons f rest =>
      rw [hfs] at h
      obtain ⟨W, hW, hcompatible, rfl⟩ := agreeOnSpace_eq_error h
      obtain ⟨g, hg, rfl⟩ := List.mem_map.1 hW
      exact .inr ⟨f, rest, g, rfl, hg, hcompatible, rfl⟩

/-! ## The discretization of some spaces -/

/-- Every space has the scalar element it is built from: no space lacks sub-spaces
that it needs, and all of them have one element. -/
theorem FunctionSpace.subElement_eq (V : FunctionSpace α) :
    V.subElement = .ok V.whole.scalarElement := by
  unfold subElement
  split
  · rename_i e helement _
    rw [← scalarElement_element, helement]
    rfl
  · rename_i hsubs hscalar
    have hcount : V.subCount = 0 := by rw [← length_subSpaces, hsubs]; rfl
    obtain ⟨e, helement⟩ := element_of_subCount_eq_zero hcount
    exact (hscalar e helement).elim
  · rename_i first rest hsubs
    have hfirst : first.element = .scalar V.whole.scalarElement :=
      element_of_mem_subSpaces (by simp [hsubs])
    have hrest : rest.any (fun W => W.element != first.element) = false := by
      rw [List.any_eq_false]
      intro W hW
      simp [hfirst, element_of_mem_subSpaces (V := V) (W := W) (by simp [hsubs, hW])]
    rw [hrest, if_neg Bool.false_ne_true, hfirst]
    rfl

theorem FunctionSpace.discretization_eq (V : FunctionSpace α) :
    V.discretization = .ok (V.whole.scalarElement, V.mesh) := by
  simp [discretization, subElement_eq]

private theorem agreeOnDiscretization_eq_ok {first d : ScalarElement × Mesh α}
    {rest : List (FunctionSpace α)} :
    agreeOnDiscretization first rest = .ok d ↔
      d = first ∧ ∀ W ∈ rest, W.discretizationId = (first.1, first.2.id) := by
  induction rest with
  | nil =>
      rw [agreeOnDiscretization]
      simpa using eq_comm
  | cons W rest ih =>
      by_cases helement : W.whole.scalarElement = first.1
      · by_cases hmesh : W.mesh.id = first.2.id
        · simp [agreeOnDiscretization, FunctionSpace.discretization_eq,
            FunctionSpace.discretizationId, helement, hmesh, ih]
        · simp [agreeOnDiscretization, FunctionSpace.discretization_eq,
            FunctionSpace.discretizationId, helement, hmesh]
      · simp [agreeOnDiscretization, FunctionSpace.discretization_eq,
          FunctionSpace.discretizationId, helement]

private theorem agreeOnDiscretization_eq_error {first : ScalarElement × Mesh α}
    {rest : List (FunctionSpace α)} {e : EvalError}
    (h : agreeOnDiscretization first rest = .error e) :
    (∃ W ∈ rest, W.whole.scalarElement ≠ first.1
        ∧ e = .inconsistentSpace (.subElements W.whole.scalarElement first.1))
      ∨ ∃ W ∈ rest, W.mesh.id ≠ first.2.id
        ∧ e = .inconsistentSpace (.meshes W.mesh.id first.2.id) := by
  induction rest with
  | nil => simp [agreeOnDiscretization] at h
  | cons W rest ih =>
      simp only [agreeOnDiscretization, FunctionSpace.discretization_eq, ok_bind] at h
      split at h
      · rename_i helement
        cases h
        exact .inl ⟨W, by simp, helement, rfl⟩
      · split at h
        · rename_i hmesh
          cases h
          exact .inr ⟨W, by simp, hmesh, rfl⟩
        · rcases ih h with ⟨W', hW', h'⟩ | ⟨W', hW', h'⟩
          · exact .inl ⟨W', by simp [hW'], h'⟩
          · exact .inr ⟨W', by simp [hW'], h'⟩

/-- Spaces share the discretization of the first one, if the others have its
scalar element and the identity of its mesh. -/
theorem sharedDiscretization_eq_ok {Vs : List (FunctionSpace α)} {d : ScalarElement × Mesh α} :
    sharedDiscretization Vs = .ok d ↔
      ∃ V rest, Vs = V :: rest ∧ d = (V.whole.scalarElement, V.mesh)
        ∧ ∀ W ∈ rest, W.discretizationId = V.discretizationId := by
  cases Vs with
  | nil => simp [sharedDiscretization]
  | cons V rest =>
      simp [sharedDiscretization, agreeOnDiscretization_eq_ok, FunctionSpace.discretization_eq,
        FunctionSpace.discretizationId]

theorem sharedDiscretization_eq_error {Vs : List (FunctionSpace α)} {e : EvalError}
    (h : sharedDiscretization Vs = .error e) :
    (e = .noFunctionOperand ∧ Vs = [])
      ∨ ∃ V ∈ Vs, ∃ W ∈ Vs,
        (W.whole.scalarElement ≠ V.whole.scalarElement
            ∧ e = .inconsistentSpace (.subElements W.whole.scalarElement V.whole.scalarElement))
          ∨ (W.mesh.id ≠ V.mesh.id ∧ e = .inconsistentSpace (.meshes W.mesh.id V.mesh.id)) := by
  cases Vs with
  | nil =>
      cases h
      exact .inl ⟨rfl, rfl⟩
  | cons V rest =>
      rw [sharedDiscretization, V.discretization_eq, ok_bind] at h
      rcases agreeOnDiscretization_eq_error h with ⟨W, hW, hne, he⟩ | ⟨W, hW, hne, he⟩
      · exact .inr ⟨V, by simp, W, by simp [hW], .inl ⟨hne, he⟩⟩
      · exact .inr ⟨V, by simp, W, by simp [hW], .inr ⟨hne, he⟩⟩

/-! ## Operands -/

theorem functionOperands_eq_ok {vs : List (Value α)} {fs : List (NodalFunction α)} :
    functionOperands vs = .ok fs ↔ vs = fs.map .function := by
  induction vs generalizing fs with
  | nil => cases fs <;> simp [functionOperands]
  | cons v vs ih =>
      cases v with
      | number x => cases fs <;> simp [functionOperands]
      | function f =>
          rw [functionOperands, bind_eq_ok]
          cases fs with
          | nil => simp
          | cons g gs => simp [ih, and_comm]

theorem functionOperands_eq_error {vs : List (Value α)} {e : EvalError} :
    functionOperands vs = .error e ↔ e = .noFunctionOperand ∧ ∃ x, .number x ∈ vs := by
  induction vs with
  | nil => simp [functionOperands]
  | cons v vs ih =>
      cases v with
      | number x => simp [functionOperands, eq_comm]
      | function f =>
          rw [functionOperands, bind_eq_error, ih]
          simp

end NodalAlgebra
