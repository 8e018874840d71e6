import NodalAlgebra.Proofs.Difference
import NodalAlgebra.Proofs.Faults
import NodalAlgebra.Proofs.Fields

/-!
# Discretizations are not mixed

Each operation compares only its own operands, but a function that an operation
answers with has their discretization, so what the leaves of a tree are built from is
compared wherever they meet. A tree that evaluates to a function therefore has one
scalar element and one mesh at all of its leaves, and a tree with two discretizations
at its leaves has no value (`not_ok_of_mixed`). It is refused, unless a declared shape
somewhere in it is too large: then the evaluation may end there in a fault
(`exists_fault_iff_not_fits`), before the leaves have met.
-/

namespace NodalAlgebra

variable {α : Type}

section

variable [Zero α] {R : Rules α}

/-! ## Mixed leaves -/

/-- A tree with two discretizations at its leaves has no value, wherever in the tree
they stand. -/
theorem not_ok_of_mixed {e : Expr α} {f g : NodalFunction α} (hf : f ∈ e.functions)
    (hg : g ∈ e.functions) (hne : f.space.discretizationId ≠ g.space.discretizationId)
    (v : Value α) : evaluate R e ≠ .ok v := by
  intro h
  cases v with
  | function k =>
      have hfk := discretizationId_of_evaluate h hf
      have hgk := discretizationId_of_evaluate h hg
      exact hne (hfk.trans hgk.symm)
  | number x =>
      -- a number is the value of a constant, which has no leaves
      rw [evaluate_eq_number.1 h] at hf
      simp [Expr.functions] at hf

/-- Where the declared shapes fit, what has no value is refused. -/
theorem exists_refused_of_sizesFitUnder {e : Expr α} (hfit : e.SizesFitUnder R)
    (hvalue : ∀ v, evaluate R e ≠ .ok v) : ∃ err, evaluate R e = .error (.refused err) := by
  cases h : evaluate R e with
  | ok v => exact absurd h (hvalue v)
  | error x =>
      cases x with
      | refused err => exact ⟨err, rfl⟩
      | fault cause => exact absurd hfit (not_sizesFitUnder_of_evaluate h)

/-! ## All leaves -/

/-- Over constructed meshes and under any rules, a tree that evaluates to a function has
at every leaf a function with the scalar element, the mesh and the number of nodes of
the result. A tree with two leaves that differ in the scalar element or the mesh has no
value, and it is refused if its declared shapes fit. -/
theorem evaluate_discretization {supply : MeshSupply} {meshes : List (Mesh α)}
    (hissued : supply.Issued meshes) (R : Rules α) {e : Expr α}
    (hmeshes : ∀ f ∈ e.functions, f.space.mesh ∈ meshes) :
    (∀ g, evaluate R e = .ok (.function g) → ∀ f ∈ e.functions,
        f.space.element.scalarElement = g.space.element.scalarElement
          ∧ f.space.mesh.id = g.space.mesh.id
          ∧ f.space.nodeCount = g.space.nodeCount)
      ∧ ∀ f ∈ e.functions, ∀ g ∈ e.functions,
        f.space.element.scalarElement ≠ g.space.element.scalarElement
            ∨ f.space.mesh.id ≠ g.space.mesh.id →
          (∀ v, evaluate R e ≠ .ok v)
            ∧ (e.SizesFitUnder R → ∃ err, evaluate R e = .error (.refused err)) := by
  constructor
  · intro g h f hf
    have hid := discretizationId_of_evaluate h hf
    have hmesh : f.space.mesh = g.space.mesh := mesh_of_evaluate hissued hmeshes h hf
    refine ⟨?_, congrArg Prod.snd hid, FunctionSpace.nodeCount_eq hmesh (congrArg Prod.fst hid)⟩
    rw [FunctionSpace.scalarElement_element, FunctionSpace.scalarElement_element]
    exact congrArg Prod.fst hid
  · intro f hf g hg hdiffer
    have hne : f.space.discretizationId ≠ g.space.discretizationId := by
      intro heq
      rw [FunctionSpace.scalarElement_element, FunctionSpace.scalarElement_element] at hdiffer
      rcases hdiffer with helement | hid
      · exact helement (congrArg Prod.fst heq)
      · exact hid (congrArg Prod.snd heq)
    have hvalue : ∀ v, evaluate R e ≠ .ok v := not_ok_of_mixed hf hg hne
    exact ⟨hvalue, fun hfit => exists_refused_of_sizesFitUnder hfit hvalue⟩

end

/-! ## Two elements on a segment -/

theorem cellCount_segment (a b : α) : (segment a b).cellCount = 1 := by
  simp [Mesh.cellCount, segment, CellType.vertexCount]

/-- Numbers on the single interval of a segment. -/
def segmentCells (a b : α) : FunctionSpace α where
  mesh := segment a b
  whole := .scalar ⟨.discontinuousLagrange, 0, .interval⟩
  component := none
  placement := .cellCentres
  cell_eq := rfl
  placement_eq := rfl
  counted := rfl
  components_pos := by decide
  components_le := by decide
  dim_lt := show (segment a b).cellCount * 1 < Size.limit by rw [cellCount_segment]; decide
  component_lt := by simp

/-- The function with a given number on the interval of a segment. -/
def segmentPiece (a b x : α) : NodalFunction α :=
  ⟨segmentCells a b, #[x], none, rfl,
    show 1 = (segment a b).cellCount * 1 by rw [cellCount_segment]⟩

theorem scalarElement_segmentPiece_ne (a b x y z : α) :
    (segmentLine a b x y).space.element.scalarElement
      ≠ (segmentPiece a b z).space.element.scalarElement := by
  intro h
  cases h

/-- A number added to a function, which has a value, and a trace added to an exponential
on the same segment, which has none since the exponential is that of a function of
another element. -/
theorem evaluate_discretization_segment :
    let u := segmentLine (0 : Float) 1 2 3
    let v := segmentPiece (0 : Float) 1 5
    let mixed : Expr Float := .operation .sum
      [.operation .trace [.function u] .scalar, .operation .exp [.function v] .scalar] .scalar
    (∃ g, evaluate Rules.standard (.operation .sum [.function u, .constant 1] .scalar)
        = .ok (.function g) ∧ u.space.nodeCount = g.space.nodeCount)
      ∧ ∃ err, evaluate Rules.standard mixed = .error (.refused err) := by
  intro u v mixed
  constructor
  · obtain ⟨g, hg⟩ := exists_evaluate_sum_constant u 1 .scalar
    have hmeshes : ∀ f ∈ (Expr.operation .sum [.function u, .constant 1] .scalar).functions,
        f.space.mesh ∈ [segment (0 : Float) 1] := by
      intro f hf
      obtain rfl : f = u := List.mem_singleton.1 hf
      exact List.mem_singleton.2 rfl
    obtain ⟨hleaves, -⟩ := evaluate_discretization (segment_issued 0 1) Rules.standard hmeshes
    exact ⟨g, hg, (hleaves g hg u (List.mem_singleton.2 rfl)).2.2⟩
  · have hmeshes : ∀ f ∈ mixed.functions, f.space.mesh ∈ [segment (0 : Float) 1] := by
      intro f hf
      rcases (by simpa [mixed, Expr.functions, Expr.functionsAll] using hf : f = u ∨ f = v)
        with rfl | rfl
      · exact List.mem_singleton.2 rfl
      · exact List.mem_singleton.2 rfl
    have hfit : mixed.SizesFitUnder Rules.standard := by
      refine Expr.eachOperation_binary.2 ⟨fun h => absurd h Bool.false_ne_true, ?_, ?_⟩
      · refine Expr.eachOperation_unary.2 ⟨fun _ f hf => ?_, .function u⟩
        obtain rfl : f = u := List.mem_singleton.1 hf
        exact ⟨rfl, show 2 * 1 < Size.limit by decide, by decide⟩
      · exact Expr.eachOperation_unary.2 ⟨fun h => absurd h Bool.false_ne_true, .function v⟩
    obtain ⟨-, hmixed⟩ := evaluate_discretization (segment_issued 0 1) Rules.standard hmeshes
    have hu : u ∈ mixed.functions := List.mem_cons_self
    have hv : v ∈ mixed.functions := List.mem_cons_of_mem _ List.mem_cons_self
    exact (hmixed u hu v hv (.inl (scalarElement_segmentPiece_ne 0 1 2 3 5))).2 hfit

/-- A trace with more components declared than can be counted is added to a function of
another element: the evaluation is over before the two elements are compared. -/
theorem mixed_not_refused :
    let u := segmentLine (0 : Float) 1 0 0
    let v := segmentPiece (0 : Float) 1 0
    let mixed : Expr Float := .operation .sum
      [.operation .trace [.function u] (.matrix (2 ^ 63) 4), .function v] .scalar
    u ∈ mixed.functions ∧ v ∈ mixed.functions
      ∧ u.space.element.scalarElement ≠ v.space.element.scalarElement
      ∧ evaluate Rules.standard mixed = .error (.fault .overflow) := by
  intro u v mixed
  have hu : u ∈ mixed.functions := List.mem_cons_self
  have hv : v ∈ mixed.functions := List.mem_cons_of_mem _ List.mem_cons_self
  have hlarge : (Shape.matrix (2 ^ 63) 4).TooLarge u.space.nodeCount .overflow :=
    .components fun h => absurd (h _ (List.prefix_refl _)) (by decide)
  have htrace : evaluate Rules.standard
      (.operation .trace [.function u] (.matrix (2 ^ 63) 4)) = .error (.fault .overflow) :=
    evaluate_of_tooLarge rfl (by decide) hlarge
  exact ⟨hu, hv, scalarElement_segmentPiece_ne 0 1 0 0 0,
    evaluate_of_operand (i := 0) rfl rfl (by simp) htrace⟩

end NodalAlgebra
