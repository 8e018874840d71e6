import NodalAlgebra.Expr.Kind
import NodalAlgebra.Proofs.KernelShapes
import NodalAlgebra.Proofs.PointwiseNodes
import NodalAlgebra.Proofs.Tree

/-!
# Kinds of values

The kind of a pointwise operation is inferred exactly where its operands share a
space (`ofShared_eq_some`), and that of a tensor operation exactly where its operands
are functions that agree and the declared shape has an element
(`ofDeclared_eq_some`). What the standard rules evaluate is therefore of the inferred
kind (`kind_of_evaluate`).
-/

namespace NodalAlgebra

variable {α : Type}

/-! ## Kinds of operands -/

private theorem filter_kinds (vs : List (Value α)) :
    (vs.map Value.kind).filter (· ≠ .number)
      = (vs.filterMap Value.function?).map fun f => (Value.function f).kind := by
  induction vs with
  | nil => rfl
  | cons v vs ih =>
      cases v with
      | function f =>
          rw [List.map_cons, List.filter_cons_of_pos (by simp [Value.kind]),
            functions_cons_function, List.map_cons, ih]
      | number x =>
          rw [List.map_cons, List.filter_cons_of_neg (by simp [Value.kind]),
            functions_cons_number, ih]

theorem kind_eq_iff {f g : NodalFunction α} :
    (Value.function g).kind = (Value.function f).kind ↔
      f.space.isCompatible g.space = true := by
  simp only [Value.kind, ValueKind.function.injEq, FunctionSpace.isCompatible, Bool.and_eq_true,
    beq_iff_eq]
  exact and_congr eq_comm eq_comm

/-- The kind of a pointwise operation is that of the space its operands share. -/
theorem ofShared_eq_some {vs : List (Value α)} {k : ValueKind} :
    ValueKind.ofShared (vs.map Value.kind) = some k ↔
      ∃ V, sharedSpace vs = .ok V ∧ k = .function V.element V.mesh.id := by
  simp only [ValueKind.ofShared, filter_kinds, sharedSpace_eq_ok]
  cases vs.filterMap Value.function? with
  | nil => simp
  | cons f rest =>
      simp only [List.map_cons, List.all_eq_true, List.mem_map, decide_eq_true_eq,
        forall_exists_index, and_imp, forall_apply_eq_imp_iff₂, kind_eq_iff]
      by_cases h : ∀ g ∈ rest, f.space.isCompatible g.space = true
      · rw [if_pos h]
        constructor
        · intro hk
          cases hk
          exact ⟨f.space, ⟨f, rest, rfl, rfl, h⟩, rfl⟩
        · rintro ⟨_, ⟨_, _, hfs, rfl, -⟩, rfl⟩
          cases hfs
          rfl
      · rw [if_neg h]
        simp only [reduceCtorEq, false_iff]
        rintro ⟨_, ⟨_, _, hfs, rfl, h'⟩, rfl⟩
        cases hfs
        exact h h'

private theorem forall₂_discretization? {vs : List (Value α)}
    {ds : List (ScalarElement × MeshId)} :
    List.Forall₂ (fun v d => v.kind.discretization? = some d) vs ds ↔
      ∃ fs : List (NodalFunction α), vs = fs.map .function
        ∧ ds = fs.map (·.space.discretizationId) := by
  constructor
  · intro h
    induction h with
    | nil => exact ⟨[], rfl, rfl⟩
    | @cons v d vs ds hv _ ih =>
        obtain ⟨fs, rfl, rfl⟩ := ih
        cases v with
        | number x => cases hv
        | function f =>
            simp only [Value.kind, ValueKind.discretization?,
              FunctionSpace.scalarElement_element, Option.some.injEq] at hv
            exact ⟨f :: fs, rfl, by rw [List.map_cons, ← hv]; rfl⟩
  · rintro ⟨fs, rfl, rfl⟩
    rw [List.forall₂_map_left_iff, List.forall₂_map_right_iff, List.forall₂_same]
    intro f _
    simp [Value.kind, ValueKind.discretization?, FunctionSpace.discretizationId]

/-- The kind of a tensor operation is that of the declared shape on the discretization
its operands agree on. -/
theorem ofDeclared_eq_some {s : Shape} {vs : List (Value α)} {k : ValueKind} :
    ValueKind.ofDeclared s (vs.map Value.kind) = some k ↔
      ∃ f rest element, vs = (f :: rest).map .function
        ∧ (∀ g ∈ rest, g.space.discretizationId = f.space.discretizationId)
        ∧ FiniteElement.ofShape? f.space.whole.scalarElement s = some element
        ∧ k = .function element f.space.mesh.id := by
  simp only [ValueKind.ofDeclared, Option.bind_eq_bind, Option.bind_eq_some_iff, mapM_eq_some,
    List.forall₂_map_left_iff, forall₂_discretization?]
  constructor
  · rintro ⟨_, ⟨fs, rfl, rfl⟩, h⟩
    cases fs with
    | nil => cases h
    | cons f rest =>
        simp only [List.map_cons] at h
        split at h
        · rename_i hall
          obtain ⟨element, helement, hk⟩ := Option.bind_eq_some_iff.1 h
          cases hk
          refine ⟨f, rest, element, rfl, ?_, helement, rfl⟩
          simpa using hall
        · cases h
  · rintro ⟨f, rest, element, rfl, hagree, helement, rfl⟩
    refine ⟨_, ⟨f :: rest, rfl, rfl⟩, ?_⟩
    have hall : (rest.map (·.space.discretizationId)).all
        (· = f.space.discretizationId) = true := by simpa using hagree
    simp only [List.map_cons]
    rw [if_pos hall]
    exact Option.bind_eq_some_iff.2 ⟨element, helement, rfl⟩

theorem Expr.kind?_operation_eq_some {op : Operator} {es : List (Expr α)} {s : Shape}
    {k : ValueKind} :
    (Expr.operation op es s).kind? = some k ↔
      ∃ ks, List.Forall₂ (fun (e : Expr α) k => e.kind? = some k) es ks ∧ op ≠ .indexed
        ∧ (if op.isTensorial then ValueKind.ofDeclared s ks else ValueKind.ofShared ks)
          = some k := by
  rw [kind?, kinds?_eq_mapM]
  simp only [Option.bind_eq_bind, Option.bind_eq_some_iff, mapM_eq_some]
  refine exists_congr fun ks => and_congr_right fun _ => ?_
  by_cases hop : op = .indexed <;> simp [hop]

/-! ## Kinds of results -/

/-- Whether a kernel is one on tensor values. -/
def Kernel.isTensor : Kernel α → Bool
  | .tensor _ => true
  | .pointwise _ => false

/-- The standard rules have tensor kernels for the tensor operators. -/
theorem isTensorial_of_select [Zero α] [One α] [Add α] [Sub α] [Mul α] [Div α] [NatCast α]
    [Elementary α] [LinearSolver α] {op : Operator} {n : Nat} {kernel : Kernel α}
    (h : Rules.standard.select op n = .ok kernel) :
    op ≠ .indexed ∧ op.isTensorial = kernel.isTensor := by
  cases op <;> simp only [Rules.select, Operator.arity?] at h
  case indexed => cases h
  all_goals
    split at h
    · cases h
      exact ⟨nofun, rfl⟩
    · cases h

/-- The result of an operation is of the kind inferred from its operands. -/
theorem kind_of_apply [Zero α] {kernel : Kernel α} {op : Operator} {es : List (Expr α)} {s : Shape}
    {vs : List (Value α)} {g : NodalFunction α} (hop : op ≠ .indexed)
    (htensor : op.isTensorial = kernel.isTensor)
    (hvs : List.Forall₂ (fun (e : Expr α) v => e.kind? = some v.kind) es vs)
    (hg : kernel.apply op s vs = .ok g) :
    (Expr.operation op es s).kind? = some (Value.function g).kind := by
  refine Expr.kind?_operation_eq_some.2
    ⟨vs.map Value.kind, List.forall₂_map_right_iff.2 hvs, hop, ?_⟩
  cases kernel with
  | pointwise k =>
      rw [htensor, Kernel.isTensor, if_neg Bool.false_ne_true, ofShared_eq_some]
      exact ⟨g.space, (applyPointwise_eq_ok.1 (Failure.ofRefusal_eq_ok.1 hg)).1, rfl⟩
  | tensor k =>
      rw [htensor, Kernel.isTensor, if_pos rfl, ofDeclared_eq_some]
      obtain ⟨f, rest, rfl, hagree, -, hmesh, helement, hshape, -, -⟩ := applyTensor_eq_ok.1 hg
      rw [NodalFunction.valueShape_eq_whole] at hshape
      refine ⟨f, rest, g.space.whole, rfl, hagree,
        FiniteElement.ofShape?_eq_some.2 ⟨helement, hshape⟩, ?_⟩
      rw [Value.kind, FunctionSpace.element_of_whole g.whole, hmesh]

/-- What the standard rules evaluate is of the inferred kind. -/
theorem kind_of_evaluate [Zero α] [One α] [Add α] [Sub α] [Mul α] [Div α] [NatCast α]
    [Elementary α] [LinearSolver α] {e : Expr α} {v : Value α}
    (h : evaluate Rules.standard e = .ok v) : e.kind? = some v.kind := by
  induction e using Expr.induct generalizing v with
  | function f =>
      cases h
      rfl
  | constant x =>
      cases h
      rfl
  | operation op es s ih =>
      obtain ⟨kernel, vs, g, hselect, hvs, hg, rfl⟩ := evaluate_operation_eq_ok.1 h
      obtain ⟨hop, htensor⟩ := isTensorial_of_select hselect
      exact kind_of_apply hop htensor (forall₂_imp hvs fun e he v hv => ih e he hv) hg

/-- The kinds inferred for operands that have values are those of the values. -/
theorem kinds_of_evaluate [Zero α] [One α] [Add α] [Sub α] [Mul α] [Div α] [NatCast α]
    [Elementary α] [LinearSolver α] {es : List (Expr α)} {vs : List (Value α)}
    {ks : List ValueKind}
    (hvs : List.Forall₂ (fun e v => evaluate Rules.standard e = .ok v) es vs)
    (hks : List.Forall₂ (fun (e : Expr α) k => e.kind? = some k) es ks) :
    ks = vs.map Value.kind := by
  induction hvs generalizing ks with
  | nil =>
      cases hks
      rfl
  | @cons e v es vs hv _ ih =>
      cases hks with
      | @cons _ k _ ks hk hks =>
          obtain rfl : v.kind = k := Option.some.inj ((kind_of_evaluate hv).symm.trans hk)
          rw [List.map_cons, ih hks]

end NodalAlgebra
