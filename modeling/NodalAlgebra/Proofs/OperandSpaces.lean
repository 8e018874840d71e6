import NodalAlgebra.Proofs.PointwiseNodes
import NodalAlgebra.Proofs.TwoRuns

/-!
# What the spaces of operands decide

Operands with the same spaces are treated alike, whatever their coefficients are.
They share a space or a discretization, or fail to do so in the same way
(`sharedSpace_congr`, `functionOperands_parallel`), and a pointwise operation on them
has results in one space, or fails in the same way (`applyPointwise_parallel`).
-/

namespace NodalAlgebra

variable {α : Type}

/-- Two values that are functions of one space, or two numbers. -/
inductive Value.SameSpace : Value α → Value α → Prop
  | function {f g : NodalFunction α} : f.space = g.space → SameSpace (.function f) (.function g)
  | number (x y : α) : SameSpace (.number x) (.number y)

theorem Value.SameSpace.refl (v : Value α) : v.SameSpace v := by
  cases v with
  | function f => exact .function rfl
  | number x => exact .number x x

/-! ## Agreement -/

theorem spaces_congr {vs ws : List (Value α)} (h : List.Forall₂ Value.SameSpace vs ws) :
    (vs.filterMap Value.function?).map (·.space) = (ws.filterMap Value.function?).map (·.space) := by
  induction h with
  | nil => rfl
  | cons hvw _ ih =>
      cases hvw with
      | function hspace =>
          rw [functions_cons_function, functions_cons_function, List.map_cons, List.map_cons, ih,
            hspace]
      | number => rw [functions_cons_number, functions_cons_number, ih]

theorem sharedSpace_congr {vs ws : List (Value α)} (h : List.Forall₂ Value.SameSpace vs ws) :
    sharedSpace vs = sharedSpace ws := by
  rw [sharedSpace, sharedSpace, spaces_congr h]

theorem functionOperands_parallel (stop : EvalError → Prop) {vs ws : List (Value α)}
    (h : List.Forall₂ Value.SameSpace vs ws) :
    Parallel stop (List.Forall₂ fun f g => f.space = g.space) (functionOperands vs)
      (functionOperands ws) := by
  induction h with
  | nil => exact .answers .nil
  | cons hvw _ ih =>
      cases hvw with
      | function hspace => exact ih.bind fun fs gs hfs => .answers (.cons hspace hfs)
      | number => exact .failures EvalError.noFunctionOperand

/-! ## Pointwise operations -/

/-- Two arrays of one length, or two numbers. -/
inductive PointwiseOperand.Similar : PointwiseOperand α → PointwiseOperand α → Prop
  | array {a b : Array α} : a.size = b.size → Similar (.array a) (.array b)
  | number (x y : α) : Similar (.number x) (.number y)

/-- Values with the same space are similar operands of a pointwise kernel. -/
theorem Value.SameSpace.similar {v w : Value α} (h : v.SameSpace w) :
    v.operand.Similar w.operand := by
  cases h with
  | @function f g hspace => exact .array (by rw [f.size_eq, g.size_eq, hspace])
  | number x y => exact .number x y

namespace PointwiseKernel

theorem apply_of_length_ne {kernel : PointwiseKernel α} {args : List (PointwiseOperand α)}
    (h : args.length ≠ kernel.arity) :
    kernel.apply args = .error (.arity kernel.arity args.length) := by
  unfold apply
  split
  case h_7 => rfl
  all_goals exact absurd rfl h

/-- Whether a kernel applies to arrays, and to how many coefficients it leads, depends
on the lengths of the arrays alone. -/
theorem apply_parallel (kernel : PointwiseKernel α) (stop : ApplyError → Prop)
    {args args' : List (PointwiseOperand α)}
    (h : List.Forall₂ PointwiseOperand.Similar args args') :
    Parallel stop (fun cs cs' => cs.size = cs'.size) (kernel.apply args) (kernel.apply args') := by
  by_cases hlength : args.length = kernel.arity
  · cases kernel with
    | unary φ =>
        obtain ⟨x, rfl⟩ := List.length_eq_one_iff.1 hlength
        obtain ⟨x', rfl, hx⟩ := forall₂_singleton h
        cases hx with
        | array hsize => exact .answers (by simpa using hsize)
        | number => exact .failures ApplyError.noArrayOperand
    | binary φ =>
        obtain ⟨x, y, rfl⟩ := List.length_eq_two.1 hlength
        obtain ⟨x', y', rfl, hx, hy⟩ := forall₂_pair h
        cases hx with
        | @array a a' ha =>
            cases hy with
            | @array b b' hb =>
                -- the lengths differ in both runs or in neither
                by_cases hsize : a.size = b.size
                · rw [apply, apply, if_pos hsize, if_pos (by omega)]
                  exact .answers (by simp [ha, hb])
                · rw [apply, apply, if_neg hsize, if_neg (by omega), ha, hb]
                  exact .failures _
            | number => exact .answers (by simpa using ha)
        | number =>
            cases hy with
            | array hb => exact .answers (by simpa using hb)
            | number => exact .failures ApplyError.noArrayOperand
  · rw [apply_of_length_ne hlength, apply_of_length_ne (h.length_eq ▸ hlength), h.length_eq]
    exact .failures _

end PointwiseKernel

/-- Tables of one length make functions of a space, or fail to do so in the same way. -/
theorem NodalFunction.ofCoefficients_parallel (V : FunctionSpace α) (stop : SpaceError → Prop)
    {cs cs' : Array α} (h : cs.size = cs'.size) :
    Parallel stop (fun f g => f.space = g.space) (ofCoefficients V cs) (ofCoefficients V cs') := by
  unfold ofCoefficients
  split
  · by_cases hsize : cs.size = V.dim
    · rw [dif_pos hsize, dif_pos (h ▸ hsize)]
      exact .answers rfl
    · rw [dif_neg hsize, dif_neg (h ▸ hsize), h]
      exact .failures _
  · exact .failures SpaceError.subSpace

/-- A pointwise operation on values with the same spaces has results in one space, or
fails in the same way. -/
theorem applyPointwise_parallel (op : Operator) (kernel : PointwiseKernel α)
    (stop : EvalError → Prop) {vs ws : List (Value α)}
    (h : List.Forall₂ Value.SameSpace vs ws) :
    Parallel stop (fun f g => f.space = g.space) (applyPointwise op kernel vs)
      (applyPointwise op kernel ws) := by
  have hargs : List.Forall₂ PointwiseOperand.Similar (vs.map Value.operand)
      (ws.map Value.operand) := by
    rw [List.forall₂_map_left_iff, List.forall₂_map_right_iff]
    exact h.imp fun _ _ hvw => hvw.similar
  have hshared := Parallel.refl stop (R := Eq) (fun _ => rfl) (sharedSpace vs)
  have happly : Parallel stop (fun cs cs' => cs.size = cs'.size)
      ((kernel.apply (vs.map Value.operand)).mapError (.ofApply op))
      ((kernel.apply (ws.map Value.operand)).mapError (.ofApply op)) :=
    (kernel.apply_parallel (fun _ => False) hargs).mapError _ fun _ => False.elim
  rw [applyPointwise, applyPointwise, ← sharedSpace_congr h]
  refine hshared.bind fun V W hVW => happly.bind fun cs cs' hsize => ?_
  rw [hVW]
  exact (NodalFunction.ofCoefficients_parallel W (fun _ => False) hsize).mapError EvalError.space
    fun _ => False.elim

end NodalAlgebra
