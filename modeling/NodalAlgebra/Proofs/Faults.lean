import NodalAlgebra.Proofs.DeclaredShapes
import NodalAlgebra.Proofs.Difference
import NodalAlgebra.Proofs.Discretization
import NodalAlgebra.Proofs.Nodewise
import NodalAlgebra.Proofs.Overflow
import NodalAlgebra.Proofs.Provenance
import NodalAlgebra.Rules.Standard
import NodalAlgebra.Scalar.Float

/-!
# Faults

Only sizes lead to a fault: in an evaluation every index lies inside its table and
every two tables that have to be of one length are. What can be too large is the value
of a declared shape, at one node or at all nodes together
(`exists_tooLarge_of_evaluate`), and for an operation on one function this is all there
is to it (`exists_fault_iff_not_fits`). So an expression whose declared shapes fit has a
value or is refused (`evaluate_of_sizesFit`).
-/

namespace NodalAlgebra

variable {α : Type}

/-- What holds of each operation of a tree holds of those within it. -/
theorem Expr.EachOperation.of_within {P : Operator → List (Expr α) → Shape → Prop} {e t : Expr α}
    (ht : t.EachOperation P) (h : e.Within t) : e.EachOperation P := by
  induction h with
  | refl => exact ht
  | operand hmem _ ih => exact ih ((eachOperation_operation.1 ht).2 _ hmem)

/-- At every operation of a tree that has a tensor kernel, the declared shape fits at the nodes
of the functions below, as in `Expr.SizesFit`: sizes count the components of one value and of
a value for each node, and the components of one value are at most `Size.maxEntries`. -/
def Expr.SizesFitUnder (R : Rules α) : Expr α → Prop :=
  EachOperation fun op es s =>
    (R.tensor op).isSome = true → ∀ f ∈ functionsAll es, s.Fits f.space.nodeCount

/-! ## Operations -/

section

variable [Zero α] {R : Rules α}

/-- A tensor operation meets a fault only if the declared shape is too large at the nodes of
an operand, and the fault is the reason. -/
theorem tooLarge_of_applyTensor {op : Operator} {kernel : TensorKernel α} {s : Shape}
    {vs : List (Value α)} {cause : Fault} (h : applyTensor op kernel s vs = .error (.fault cause)) :
    ∃ f, .function f ∈ vs ∧ s.TooLarge f.space.nodeCount cause := by
  rcases applyTensor_eq_error h with ⟨_, -, hx⟩ | ⟨_, _, -, -, hx⟩
    | ⟨f, rest, rfl, -, ⟨-, hx⟩ | ⟨-, hspace | ⟨-, _, -, _, -, hx⟩⟩⟩
  · cases hx
  · cases hx
  · cases hx
  · obtain ⟨-, -, p, hp, hlarge⟩ := FunctionSpace.ofShape_eq_fault.1 hspace
    obtain rfl : f.space.placement = p := Option.some.inj (f.space.placement_eq.symm.trans hp)
    exact ⟨f, by simp, hlarge⟩
  · cases hx

/-- The operation that raises a fault has a tensor kernel, and its declared shape is too large
at the nodes of a function below it. -/
theorem Raises.tooLarge {op : Operator} {es : List (Expr α)} {s : Shape} {cause : Fault}
    (h : Raises R op es s (.fault cause)) :
    (R.tensor op).isSome = true
      ∧ ∃ f ∈ Expr.functionsAll es, s.TooLarge f.space.nodeCount cause := by
  cases h with
  | @application kernel vs _ hselect hvs happly =>
      cases kernel with
      | pointwise k => exact absurd happly Failure.ofRefusal_ne_fault
      | tensor k =>
          obtain ⟨f, hf, hlarge⟩ := tooLarge_of_applyTensor happly
          obtain ⟨e, he, hef⟩ := exists_of_mem_forall₂ hvs hf
          obtain ⟨f', hf', hcount⟩ := exists_nodeCount_of_evaluate hef
          refine ⟨by rw [Rules.tensor_of_select hselect]; rfl, f',
            Expr.mem_functionsAll.2 ⟨e, he, hf'⟩, ?_⟩
          rwa [hcount]

/-- A fault is about the size of a declared shape somewhere in the tree. -/
theorem exists_tooLarge_of_evaluate {e : Expr α} {cause : Fault}
    (h : evaluate R e = .error (.fault cause)) :
    ∃ op es s, (Expr.operation op es s).Within e ∧ (R.tensor op).isSome = true
      ∧ ∃ f ∈ Expr.functionsAll es, s.TooLarge f.space.nodeCount cause := by
  obtain ⟨op, es, s, hwithin, hraises⟩ := exists_raises_of_evaluate h
  exact ⟨op, es, s, hwithin, hraises.tooLarge⟩

theorem exists_not_fits_of_evaluate {e : Expr α} {cause : Fault}
    (h : evaluate R e = .error (.fault cause)) :
    ∃ op es s, (Expr.operation op es s).Within e ∧ (R.tensor op).isSome = true
      ∧ ∃ f ∈ Expr.functionsAll es, ¬ s.Fits f.space.nodeCount := by
  obtain ⟨op, es, s, hwithin, htensor, f, hf, hlarge⟩ := exists_tooLarge_of_evaluate h
  exact ⟨op, es, s, hwithin, htensor, f, hf, fun hfits =>
    Shape.fits_iff_forall_not_tooLarge.1 hfits _ hlarge⟩

/-- Where the declared shapes fit, no fault is met. -/
theorem not_sizesFitUnder_of_evaluate {e : Expr α} {cause : Fault}
    (h : evaluate R e = .error (.fault cause)) : ¬ e.SizesFitUnder R := by
  intro hfit
  obtain ⟨op, es, s, hwithin, htensor, f, hf, hfits⟩ := exists_not_fits_of_evaluate h
  exact hfits ((Expr.eachOperation_operation.1 (hfit.of_within hwithin)).1 htensor f hf)

/-! ## Declared shapes that are too large -/

section

variable {op : Operator} {kernel : TensorKernel α} {s : Shape} {f : NodalFunction α}

/-- A tensor operation on functions that agree does not come to its kernel if the declared
shape is too large at their nodes. -/
theorem evaluate_of_tooLarge_of_agree (fs : List (NodalFunction α)) {cause : Fault}
    (hselect : R.select op (fs.length + 1) = .ok (.tensor kernel))
    (hagree : ∀ g ∈ fs, g.space.discretizationId = f.space.discretizationId)
    (hcounts : ∀ g ∈ fs, g.space.nodeCount = f.space.nodeCount) (hrank : s.rank ≤ 2)
    (hlarge : s.TooLarge f.space.nodeCount cause) :
    evaluate R (.operation op ((f :: fs).map .function) s) = .error (.fault cause) := by
  have hspace : FunctionSpace.ofShape f.space.whole.scalarElement s f.space.mesh
      = .error (.fault cause) :=
    FunctionSpace.ofShape_eq_fault.2 ⟨hrank, f.space.cell_eq, _, f.space.placement_eq, hlarge⟩
  have happly : applyTensor op kernel s ((f :: fs).map .function) = .error (.fault cause) := by
    rw [applyTensor_of_agree hagree hcounts, hspace, error_bind]
  have hvalues : List.Forall₂ (fun e v => evaluate R e = .ok v) ((f :: fs).map .function)
      ((f :: fs).map .function) := by
    rw [List.forall₂_map_left_iff, List.forall₂_map_right_iff, List.forall₂_same]
    exact fun _ _ => rfl
  refine evaluate_operation_eq_error.2 (.inr ⟨.tensor kernel, ?_, .inr ⟨_, hvalues, happly⟩⟩)
  rwa [List.length_map, List.length_cons]

theorem evaluate_of_tooLarge {cause : Fault} (hselect : R.select op 1 = .ok (.tensor kernel))
    (hrank : s.rank ≤ 2) (hlarge : s.TooLarge f.space.nodeCount cause) :
    evaluate R (.operation op [.function f] s) = .error (.fault cause) :=
  evaluate_of_tooLarge_of_agree [] hselect (by simp) (by simp) hrank hlarge

/-- A tensor operation on one function meets a fault exactly if the declared shape does
not fit at its nodes. -/
theorem exists_fault_iff_not_fits (hselect : R.select op 1 = .ok (.tensor kernel))
    (hrank : s.rank ≤ 2) :
    (∃ cause, evaluate R (.operation op [.function f] s) = .error (.fault cause))
      ↔ ¬ s.Fits f.space.nodeCount := by
  constructor
  · rintro ⟨cause, h⟩ hfits
    refine not_sizesFitUnder_of_evaluate h (Expr.eachOperation_unary.2 ⟨?_, .function f⟩)
    intro _ g hg
    obtain rfl : g = f := List.mem_singleton.1 hg
    exact hfits
  · intro hfits
    rw [Shape.fits_iff_forall_not_tooLarge] at hfits
    push Not at hfits
    obtain ⟨cause, hlarge⟩ := hfits
    exact ⟨cause, evaluate_of_tooLarge hselect hrank hlarge⟩

/-- An operation whose declared shape is counted by sizes, but is too large for a table,
meets a fault. -/
theorem evaluate_of_maxEntries_lt (hselect : R.select op 1 = .ok (.tensor kernel))
    (hrank : s.rank ≤ 2) (hcounted : s.componentCount? = .ok s.componentCount)
    (hdim : f.space.nodeCount * s.componentCount < Size.limit)
    (hlarge : Size.maxEntries < s.componentCount) :
    evaluate R (.operation op [.function f] s) = .error (.fault .capacity) :=
  evaluate_of_tooLarge hselect hrank
    (.table (Shape.componentCount?_eq_ok.1 hcounted).1 hdim hlarge)

end

end

/-! ## Standard rules -/

section

variable [Zero α] [One α] [Add α] [Sub α] [Mul α] [Div α] [NatCast α] [Elementary α]
  [LinearSolver α]

theorem isSome_standardTensor (op : Operator) :
    ((Rules.standard : Rules α).tensor op).isSome = op.isTensorial := by
  cases op <;> rfl

theorem sizesFitUnder_standard {e : Expr α} :
    e.SizesFitUnder Rules.standard ↔ e.SizesFit := by
  simp only [Expr.SizesFitUnder, Expr.SizesFit, isSome_standardTensor]

/-- Under the standard rules a fault tells that a declared shape does not fit. -/
theorem not_sizesFit_of_evaluate {e : Expr α} {cause : Fault}
    (h : evaluate Rules.standard e = .error (.fault cause)) : ¬ e.SizesFit := by
  rw [← sizesFitUnder_standard]
  exact not_sizesFitUnder_of_evaluate h

/-- No expression meets a fault, whatever its operations and their declared shapes are,
if the shapes fit: it has a value or it is refused. -/
theorem evaluate_of_sizesFit {e : Expr α} (hfit : e.SizesFit) :
    (∃ v, evaluate Rules.standard e = .ok v)
      ∨ ∃ err, evaluate Rules.standard e = .error (.refused err) := by
  cases h : evaluate Rules.standard e with
  | ok v => exact .inl ⟨v, rfl⟩
  | error x =>
      cases x with
      | refused err => exact .inr ⟨err, rfl⟩
      | fault cause => exact absurd hfit (not_sizesFit_of_evaluate h)

end

/-- The inverse, declared as a vector, of a function on a segment. -/
theorem evaluate_of_sizesFit_segment :
    let e : Expr Float := .operation .inverse
      [.function (segmentFunction 0 1 #[1, 0, 0, 1, 2, 1, 1, 2] rfl)] (.vector 7)
    (∃ v, evaluate Rules.standard e = .ok v)
      ∨ ∃ err, evaluate Rules.standard e = .error (.refused err) := by
  intro e
  refine evaluate_of_sizesFit (Expr.eachOperation_unary.2 ⟨fun _ f hf => ?_, .function _⟩)
  obtain rfl : f = segmentFunction 0 1 #[1, 0, 0, 1, 2, 1, 1, 2] rfl := List.mem_singleton.1 hf
  exact ⟨rfl, show 2 * 7 < Size.limit by decide, by decide⟩

/-! ## A table that is too large -/

/-- The mesh of intervals without vertices and cells. -/
def emptyMesh : Mesh α where
  id := ⟨0⟩
  cell := .interval
  vertices := #[]
  connectivity := #[]
  wholeCells := by decide
  uniform := by simp
  inRange := by simp

/-- Numbers at no node at all. -/
def emptyNumbers : FunctionSpace α where
  mesh := emptyMesh
  whole := .scalar ⟨.lagrange, 1, .interval⟩
  component := none
  placement := .vertices
  -- the cells and the element are those of `segmentNumbers`, only the nodes are other ones
  cell_eq := (segmentNumbers (0 : Int) 1).cell_eq
  placement_eq := (segmentNumbers (0 : Int) 1).placement_eq
  counted := (segmentNumbers (0 : Int) 1).counted
  components_pos := (segmentNumbers (0 : Int) 1).components_pos
  components_le := (segmentNumbers (0 : Int) 1).components_le
  dim_lt := show 0 * 1 < Size.limit by decide
  component_lt := (segmentNumbers (0 : Int) 1).component_lt

/-- A function without coefficients. -/
def emptyFunction : NodalFunction α := ⟨emptyNumbers, #[], none, rfl, rfl⟩

/-- A vector of 2⁶³ components is counted by a size, and without nodes so are the
components at all nodes, but there is no table of as many sub-spaces. -/
theorem evaluate_empty_capacity :
    (Shape.vector (2 ^ 63)).componentCount? = .ok (2 ^ 63)
      ∧ (emptyFunction : NodalFunction Float).space.nodeCount * 2 ^ 63 < Size.limit
      ∧ evaluate Rules.standard (.operation .trace [.function (emptyFunction : NodalFunction Float)]
          (.vector (2 ^ 63))) = .error (.fault .capacity) :=
  ⟨rfl, by decide, evaluate_of_maxEntries_lt rfl (by decide) rfl (by decide) (by decide)⟩

end NodalAlgebra
