import Mathlib.Algebra.Ring.Int.Defs
import NodalAlgebra.Proofs.Discretization

/-!
# Evaluation node by node

The value of an expression has at every node what the expression stands for there
(`evaluate_nodewise`). What it stands for depends on the tree, its constants and
the values of its functions at that node (`Expr.valueAt_of_alike`), so no
coefficient of another node enters.
-/

namespace NodalAlgebra

variable {α : Type}

/-- Trees that differ only in functions with the same values stand for the same, at whichever
nodes the values are taken. -/
theorem Expr.valueAt_of_alike {R : Rules α} {leaf leaf' : NodalFunction α → Option (TensorValue α)}
    {e e' : Expr α} (h : Expr.Alike (fun f f' => leaf f = leaf' f') Eq e e') :
    e.valueAt R leaf = e'.valueAt R leaf' := by
  induction e using Expr.induct generalizing e' with
  | function f =>
      cases h with
      | function hf => simp [valueAt, hf]
  | constant x =>
      cases h with
      | constant hx =>
          rw [hx]
          rfl
  | operation op es s ih =>
      cases h with
      | operation hes =>
          have hvalues : List.Forall₂ (fun (e e' : Expr α) => e.valueAt R leaf
              = e'.valueAt R leaf') _ _ := forall₂_imp hes fun e he _ h => ih e he h
          rw [valueAt, valueAt, valuesAt_eq_mapM, valuesAt_eq_mapM, mapM_congr hvalues,
            hes.length_eq]

/-- An expression stands for something at nodes of its functions only. -/
theorem Expr.lt_nodeCount_of_valueAt {R : Rules α} {e : Expr α} {n : Nat} {v : NodeValue α}
    (h : e.valueAt R (·.nodeValue? n) = some v) {f : NodalFunction α} (hf : f ∈ e.functions) :
    n < f.space.nodeCount := by
  induction e using Expr.induct generalizing v with
  | function g =>
      obtain rfl : f = g := by simpa [functions] using hf
      obtain ⟨a, ha, -⟩ := Option.map_eq_some_iff.1 h
      exact (NodalFunction.nodeValue?_eq_some.1 ha).1
  | constant x => simp [functions] at hf
  | operation op es s ih =>
      obtain ⟨_, args, _, -, hargs, -, -⟩ := valueAt_operation_eq_some.1 h
      obtain ⟨e, he, hfe⟩ := mem_functions_operation.1 hf
      obtain ⟨arg, -, harg⟩ := exists_of_mem_forall₂ hargs.flip he
      exact ih e he harg hfe

section

variable [Zero α] {R : Rules α}

/-- Where a value of an expression has a value at a node, it is the one that the
expression stands for. -/
theorem valueAt_of_evaluate {e : Expr α} {v : Value α} (h : evaluate R e = .ok v) {n : Nat}
    {a : NodeValue α} (ha : v.at? n = some a) : e.valueAt R (·.nodeValue? n) = some a := by
  induction e using Expr.induct generalizing v a with
  | function f =>
      cases h
      exact ha
  | constant x =>
      cases h
      exact ha
  | operation op es s ih =>
      obtain ⟨kernel, vs, g, hk, hvs, hg, rfl⟩ := evaluate_operation_eq_ok.1 h
      obtain ⟨b, hb, rfl⟩ := Option.map_eq_some_iff.1 ha
      have hn : n < g.space.nodeCount := (NodalFunction.nodeValue?_eq_some.1 hb).1
      obtain ⟨args, c, hargs, hc, hgc⟩ := Kernel.apply_at hg hn
      obtain rfl : c = b := Option.some.inj (hgc.symm.trans hb)
      exact Expr.valueAt_operation_eq_some.2 ⟨kernel, args, c, hk,
        forall₂_comp hvs hargs fun e he _ _ hv harg => ih e he hv harg, hc, rfl⟩

/-- What an expression stands for at a node is the value there of the function it
evaluates to. -/
theorem nodeValue?_of_valueAt {e : Expr α} {f : NodalFunction α}
    (h : evaluate R e = .ok (.function f)) {n : Nat} {a : TensorValue α}
    (ha : e.valueAt R (·.nodeValue? n) = some (.tensor a)) : f.nodeValue? n = some a := by
  obtain ⟨f', hf', hcount⟩ := exists_nodeCount_of_evaluate h
  obtain ⟨b, hb⟩ := f.exists_nodeValue? (hcount ▸ Expr.lt_nodeCount_of_valueAt ha hf')
  have hvalue : e.valueAt R (·.nodeValue? n) = some (.tensor b) :=
    valueAt_of_evaluate h (by simp [Value.at?, hb])
  rw [ha] at hvalue
  cases hvalue
  exact hb

/-- A function that an expression evaluates to has at each of its nodes the value
that the expression stands for there. Other functions at the leaves, in whatever
spaces, lead to the same value at the node if they agree there. -/
theorem evaluate_nodewise {e : Expr α} {f : NodalFunction α}
    (h : evaluate R e = .ok (.function f)) {n : Nat} (hn : n < f.space.nodeCount) :
    ∃ a, f.nodeValue? n = some a
      ∧ e.valueAt R (·.nodeValue? n) = some (.tensor a)
      ∧ ∀ e' f', Expr.Alike (fun g g' => g.nodeValue? n = g'.nodeValue? n) Eq e e' →
          evaluate R e' = .ok (.function f') → n < f'.space.nodeCount →
          f'.nodeValue? n = some a := by
  obtain ⟨a, ha⟩ := f.exists_nodeValue? hn
  have hvalue : e.valueAt R (·.nodeValue? n) = some (.tensor a) :=
    valueAt_of_evaluate h (by simp [Value.at?, ha])
  refine ⟨a, ha, hvalue, ?_⟩
  -- the two trees stand for the same, and so do their values
  intro e' f' halike h' hn'
  obtain ⟨b, hb⟩ := f'.exists_nodeValue? hn'
  have hvalue' : e'.valueAt R (·.nodeValue? n) = some (.tensor b) :=
    valueAt_of_evaluate h' (by simp [Value.at?, hb])
  rw [← Expr.valueAt_of_alike halike, hvalue] at hvalue'
  cases hvalue'
  exact hb

end

/-! ## Matrices at the ends of a segment -/

/-- The mesh of the single interval between two points. -/
def segment (a b : α) : Mesh α where
  id := ⟨0⟩
  cell := .interval
  vertices := #[#[a], #[b]]
  connectivity := #[0, 1]
  wholeCells := by decide
  uniform := by simp
  inRange := by simp

/-- Matrices with two rows and columns at the ends of a segment. -/
def segmentMatrices (a b : α) : FunctionSpace α where
  mesh := segment a b
  whole := .tensor ⟨.lagrange, 1, .interval⟩ 2 2
  component := none
  placement := .vertices
  cell_eq := rfl
  placement_eq := rfl
  counted := rfl
  components_pos := by decide
  components_le := by decide
  dim_lt := show 2 * 4 < Size.limit by decide
  component_lt := by simp

/-- The function on a segment with the given entries of its two matrices. -/
def segmentFunction (a b : α) (entries : Array α) (h : entries.size = 8) : NodalFunction α :=
  ⟨segmentMatrices a b, entries, none, rfl, h⟩

/-- A transposed sum on a segment at its second node. -/
theorem evaluate_nodewise_segment :
    let e : Expr Int := .operation .transposed [.operation .sum
      [.function (segmentFunction 0 1 #[1, 2, 3, 4, 5, 6, 7, 8] rfl), .constant 1] (.matrix 2 2)]
      (.matrix 2 2)
    let R : Rules Int :=
      { pointwise := fun op => if op = .sum then some (.binary (· + ·)) else none
        tensor := fun op => if op = .transposed then some TensorKernel.transpose else none
        consistent := fun op => by cases op <;> rfl }
    ∃ f a, evaluate R e = .ok (.function f) ∧ f.nodeValue? 1 = some a
      ∧ e.valueAt R (·.nodeValue? 1) = some (.tensor a) := by
  intro e R
  have hmap : (PointwiseKernel.binary (· + ·)).apply
      [.array #[1, 2, 3, 4, 5, 6, 7, 8], .number (1 : Int)] = .ok #[2, 3, 4, 5, 6, 7, 8, 9] := by
    simp [PointwiseKernel.apply]
  have hsum : evaluate R (.operation .sum
      [.function (segmentFunction 0 1 #[1, 2, 3, 4, 5, 6, 7, 8] rfl), .constant 1] (.matrix 2 2))
      = .ok (.function (segmentFunction 0 1 #[2, 3, 4, 5, 6, 7, 8, 9] rfl)) :=
    evaluate_operation_eq_ok.2 ⟨.pointwise (.binary (· + ·)), _,
      segmentFunction 0 1 #[2, 3, 4, 5, 6, 7, 8, 9] rfl, rfl, .cons rfl (.cons rfl .nil),
      Failure.ofRefusal_eq_ok.2 (applyPointwise_eq_ok.2 ⟨rfl, hmap, rfl⟩), rfl⟩
  have h : evaluate R e
      = .ok (.function (segmentFunction 0 1 #[2, 4, 3, 5, 6, 8, 7, 9] rfl)) :=
    evaluate_operation_eq_ok.2
      ⟨.tensor TensorKernel.transpose, _, _, rfl, .cons hsum .nil, rfl, rfl⟩
  obtain ⟨a, ha, hvalue, -⟩ := evaluate_nodewise h (show 1 < 2 by decide)
  exact ⟨_, a, h, ha, hvalue⟩

end NodalAlgebra
