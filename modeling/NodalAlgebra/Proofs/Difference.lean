import NodalAlgebra.Expr.Build
import NodalAlgebra.Proofs.Nodewise
import NodalAlgebra.Proofs.OperandSpaces
import NodalAlgebra.Rules.Standard
import NodalAlgebra.Scalar.Float

/-!
# Differences

A difference is evaluated as a sum whose second operand is scaled by minus one. The
scaled operand lives in the space of the operand itself (`evaluate_neg`), so where a sum
has a value the difference has one too, in a compatible space and with the coefficients
`x + -1 * y` (`evaluate_sub`). The one exception is a number that is subtracted: its
negative is an operation without a function (`evaluate_sub_constant`).
-/

namespace NodalAlgebra

variable {α : Type}

/-! ## Coefficients of operands -/

/-- What a value contributes to coefficient `i` of a pointwise operation: its own
coefficient, or the number. -/
def Value.coefficient? (i : Nat) : Value α → Option α
  | .function f => f.coefficients[i]?
  | .number x => some x

/-- Every coefficient of a binary operation combines those of the operands. -/
theorem coefficient_of_binary {op : Operator} {φ : α → α → α} {v w : Value α}
    {g : NodalFunction α} (h : applyPointwise op (.binary φ) [v, w] = .ok g) {i : Nat}
    (hi : i < g.coefficients.size) :
    ∃ x y, v.coefficient? i = some x ∧ w.coefficient? i = some y
      ∧ g.coefficients[i]? = some (φ x y) := by
  obtain ⟨-, happly, -⟩ := applyPointwise_eq_ok.1 h
  rcases PointwiseKernel.apply_eq_ok.1 happly with ⟨_, _, hkernel, -, -⟩
    | ⟨_, cs, ds, hkernel, hargs, hsize, hcs⟩ | ⟨_, cs, y, hkernel, hargs, hcs⟩
    | ⟨_, x, ds, hkernel, hargs, hcs⟩
  · cases hkernel
  · cases hkernel
    obtain ⟨hv, hw⟩ : v.operand = .array cs ∧ w.operand = .array ds := by simpa using hargs
    obtain ⟨f, rfl, rfl⟩ := Value.operand_eq_array.1 hv
    obtain ⟨f', rfl, rfl⟩ := Value.operand_eq_array.1 hw
    rw [hcs, Array.size_zipWith] at hi
    have hf : i < f.coefficients.size := by omega
    have hf' : i < f'.coefficients.size := by omega
    refine ⟨f.coefficients[i], f'.coefficients[i], by simp [Value.coefficient?, hf],
      by simp [Value.coefficient?, hf'], ?_⟩
    rw [hcs, Array.getElem?_zipWith, Array.getElem?_eq_getElem hf, Array.getElem?_eq_getElem hf']
  · cases hkernel
    obtain ⟨hv, hw⟩ : v.operand = .array cs ∧ w.operand = .number y := by simpa using hargs
    obtain ⟨f, rfl, rfl⟩ := Value.operand_eq_array.1 hv
    obtain rfl := Value.operand_eq_number.1 hw
    rw [hcs, Array.size_map] at hi
    exact ⟨f.coefficients[i], y, by simp [Value.coefficient?, hi], rfl, by simp [hcs, hi]⟩
  · cases hkernel
    obtain ⟨hv, hw⟩ : v.operand = .number x ∧ w.operand = .array ds := by simpa using hargs
    obtain rfl := Value.operand_eq_number.1 hv
    obtain ⟨f, rfl, rfl⟩ := Value.operand_eq_array.1 hw
    rw [hcs, Array.size_map] at hi
    exact ⟨x, f.coefficients[i], rfl, by simp [Value.coefficient?, hi], by simp [hcs, hi]⟩

/-! ## Sums and differences -/

/-- The negative of an expression is its product with minus one. -/
theorem Expr.neg_eq [One α] [Neg α] (b : Expr α) :
    Expr.neg b = .ok (.operation .product [.constant (-1), b] b.shape) := rfl

section

variable [Zero α] [One α] [Add α] [Sub α] [Mul α] [Div α] [NatCast α] [Elementary α]
  [LinearSolver α]

/-- A sum has the value that the pointwise sum of its operands' values is. -/
theorem evaluate_sum_eq_ok {a b : Expr α} {s : Shape} {g : NodalFunction α} :
    evaluate Rules.standard (.operation .sum [a, b] s) = .ok (.function g) ↔
      ∃ v w, evaluate Rules.standard a = .ok v ∧ evaluate Rules.standard b = .ok w
        ∧ applyPointwise .sum (.binary (· + ·)) [v, w] = .ok g := by
  rw [evaluate_operation_eq_ok]
  constructor
  · rintro ⟨kernel, vs, _, hselect, hvs, hg, hvalue⟩
    cases hselect
    cases hvalue
    obtain ⟨v, w, rfl, hv, hw⟩ := forall₂_pair hvs
    exact ⟨v, w, hv, hw, Failure.ofRefusal_eq_ok.1 hg⟩
  · rintro ⟨v, w, hv, hw, hg⟩
    exact ⟨.pointwise (.binary (· + ·)), [v, w], g, rfl, .cons hv (.cons hw .nil),
      Failure.ofRefusal_eq_ok.2 hg, rfl⟩

/-- A number can be added to every function. -/
theorem exists_evaluate_sum_constant (f : NodalFunction α) (x : α) (s : Shape) :
    ∃ g, evaluate Rules.standard (.operation .sum [.function f, .constant x] s)
      = .ok (.function g) := by
  have hV : sharedSpace [.function f, .number x] = .ok f.space :=
    sharedSpace_eq_ok.2 ⟨f, [], rfl, rfl, by simp⟩
  have hcs : (PointwiseKernel.binary (· + ·)).apply [.array f.coefficients, .number x]
      = .ok (f.coefficients.map (· + x)) := rfl
  obtain ⟨g, hg⟩ := exists_applyPointwise .sum hV hcs
  exact ⟨g, evaluate_sum_eq_ok.2 ⟨_, _, rfl, rfl, hg⟩⟩

variable [Neg α]

/-- The negative of a function lives in its space and has its coefficients times minus
one. -/
theorem evaluate_neg {b : Expr α} {f : NodalFunction α}
    (h : evaluate Rules.standard b = .ok (.function f)) :
    ∃ g, evaluate Rules.standard (.operation .product [.constant (-1), b] b.shape)
        = .ok (.function g)
      ∧ g.space = f.space ∧ g.coefficients = f.coefficients.map fun y => -1 * y := by
  let g : NodalFunction α :=
    ⟨f.space, f.coefficients.map fun y => -1 * y, none, f.whole, by rw [Array.size_map, f.size_eq]⟩
  have hg : applyPointwise .product (.binary (· * ·)) [.number (-1), .function f] = .ok g :=
    applyPointwise_eq_ok.2 ⟨rfl, rfl, rfl⟩
  exact ⟨g, evaluate_operation_eq_ok.2 ⟨.pointwise (.binary (· * ·)), _, g, rfl,
    .cons rfl (.cons h .nil), Failure.ofRefusal_eq_ok.2 hg, rfl⟩, rfl, rfl⟩

/-- Wherever a sum has a value, the difference has one, unless a bare number is
subtracted. It lives in a compatible space, and its coefficients are those of the first
operand plus minus one times those of the second. -/
theorem evaluate_sub {a b e : Expr α} {f : NodalFunction α} (hb : ∀ x, b ≠ .constant x)
    (he : Expr.binary .sum a b = .ok e) (h : evaluate Rules.standard e = .ok (.function f)) :
    ∃ v w e' g, evaluate Rules.standard a = .ok v ∧ evaluate Rules.standard b = .ok w
      ∧ Expr.sub a b = .ok e' ∧ evaluate Rules.standard e' = .ok (.function g)
      ∧ f.space.isCompatible g.space = true
      ∧ ∀ i < g.coefficients.size, ∃ x y, v.coefficient? i = some x
          ∧ w.coefficient? i = some y ∧ g.coefficients[i]? = some (x + -1 * y) := by
  obtain ⟨s, hs, he⟩ := bind_eq_ok.1 he
  cases he
  obtain ⟨v, w, hv, hw, hf⟩ := evaluate_sum_eq_ok.1 h
  cases w with
  | number y => exact absurd (evaluate_eq_number.1 hw) (hb y)
  | function fb =>
      obtain ⟨fn, hn, hspace, hcoefficients⟩ := evaluate_neg hw
      have hsub : Expr.sub a b
          = .ok (.operation .sum [a, .operation .product [.constant (-1), b] b.shape] s) := by
        rw [Expr.sub, Expr.neg_eq, ok_bind, Expr.binary, Expr.shape, hs]
        rfl
      -- the negative stands in the place of the second operand, in the same space
      have hoperands : List.Forall₂ Value.SameSpace [v, .function fb] [v, .function fn] :=
        .cons (.refl v) (.cons (.function hspace.symm) .nil)
      have hparallel := applyPointwise_parallel .sum (.binary (· + ·)) (fun _ => False) hoperands
      rw [hf] at hparallel
      obtain ⟨g, hg, hfg⟩ := hparallel.exists_ok
      refine ⟨v, .function fb, _, g, hv, hw, hsub, evaluate_sum_eq_ok.2 ⟨v, _, hv, hn, hg⟩,
        by simp [FunctionSpace.isCompatible, hfg], fun i hi => ?_⟩
      obtain ⟨x, z, hx, hz, hxz⟩ := coefficient_of_binary hg hi
      rw [Value.coefficient?, hcoefficients, Array.getElem?_map] at hz
      obtain ⟨y, hy, rfl⟩ := Option.map_eq_some_iff.1 hz
      exact ⟨x, y, hx, hy, hxz⟩

/-- A number is never subtracted: its negative has no function to take the space from. -/
theorem evaluate_sub_constant {a e : Expr α} {x : α} {v : Value α}
    (he : Expr.sub a (.constant x) = .ok e) (ha : evaluate Rules.standard a = .ok v) :
    evaluate Rules.standard e = .error (.refused .noFunctionOperand) := by
  obtain ⟨c, hc, he⟩ := bind_eq_ok.1 he
  cases hc
  obtain ⟨s, hs, he⟩ := bind_eq_ok.1 he
  cases he
  have hneg : evaluate Rules.standard
      (.operation .product [.constant (-1), .constant x] .scalar : Expr α)
        = .error (.refused .noFunctionOperand) := rfl
  exact evaluate_of_operand (i := 1) rfl rfl (by simp [ha]) hneg

end

/-! ## Numbers at the ends of a segment -/

/-- Numbers at the ends of a segment. -/
def segmentNumbers (a b : α) : FunctionSpace α where
  mesh := segment a b
  whole := .scalar ⟨.lagrange, 1, .interval⟩
  component := none
  placement := .vertices
  cell_eq := rfl
  placement_eq := rfl
  counted := rfl
  components_pos := by decide
  components_le := by decide
  dim_lt := show 2 * 1 < Size.limit by decide
  component_lt := by simp

/-- The function on a segment with the given numbers at its ends. -/
def segmentLine (a b : α) (x y : α) : NodalFunction α :=
  ⟨segmentNumbers a b, #[x, y], none, rfl, rfl⟩

theorem size_segmentLine (a b x y : α) : (segmentLine a b x y).coefficients.size = 2 := rfl

/-- The difference of two functions on a segment. -/
theorem evaluate_sub_segment :
    let u := segmentLine (0 : Float) 1 2 3
    let v := segmentLine (0 : Float) 1 5 7
    ∃ e f e' g, Expr.binary .sum (.function u) (.function v) = .ok e
      ∧ evaluate Rules.standard e = .ok (.function f)
      ∧ Expr.sub (.function u) (.function v) = .ok e'
      ∧ evaluate Rules.standard e' = .ok (.function g)
      ∧ f.space.isCompatible g.space = true := by
  intro u v
  have he : Expr.binary .sum (.function u) (.function v)
      = .ok (.operation .sum [.function u, .function v] .scalar) := rfl
  have hcompatible : u.space.isCompatible v.space = true :=
    (FunctionSpace.isCompatible_iff u.whole v.whole).2 ⟨rfl, rfl⟩
  have hV : sharedSpace [.function u, .function v] = .ok u.space :=
    sharedSpace_eq_ok.2 ⟨u, [v], rfl, rfl, List.forall_mem_singleton.2 hcompatible⟩
  have hsize : u.coefficients.size = v.coefficients.size := by
    rw [size_segmentLine, size_segmentLine]
  have hcs : (PointwiseKernel.binary (· + ·)).apply [.array u.coefficients, .array v.coefficients]
      = .ok (Array.zipWith (· + ·) u.coefficients v.coefficients) :=
    PointwiseKernel.apply_eq_ok.2 (.inr (.inl ⟨_, _, _, rfl, rfl, hsize, rfl⟩))
  obtain ⟨f, hf⟩ := exists_applyPointwise .sum hV hcs
  have h : evaluate Rules.standard (.operation .sum [.function u, .function v] .scalar)
      = .ok (.function f) := evaluate_sum_eq_ok.2 ⟨_, _, rfl, rfl, hf⟩
  have hv : ∀ x, Expr.function v ≠ .constant x := nofun
  obtain ⟨_, _, e', g, -, -, he', hg, hspace, -⟩ := evaluate_sub hv he h
  exact ⟨_, f, e', g, he, h, he', hg, hspace⟩

/-- A number can be added to a function on a segment, but not be subtracted from it. -/
theorem sub_number_segment :
    let u := segmentLine (0 : Float) 1 2 2
    ∃ e f e', Expr.binary .sum (.function u) (.constant 1) = .ok e
      ∧ evaluate Rules.standard e = .ok (.function f)
      ∧ Expr.sub (.function u) (.constant 1) = .ok e'
      ∧ evaluate Rules.standard e' = .error (.refused .noFunctionOperand) := by
  intro u
  obtain ⟨f, hf⟩ := exists_evaluate_sum_constant u 1 .scalar
  have hu : evaluate Rules.standard (.function u) = .ok (.function u) := rfl
  exact ⟨_, f, _, rfl, hf, rfl, evaluate_sub_constant rfl hu⟩

end NodalAlgebra
