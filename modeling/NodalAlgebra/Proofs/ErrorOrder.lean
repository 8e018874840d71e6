import NodalAlgebra.Proofs.DeclaredShapes
import NodalAlgebra.Proofs.OperandSpaces
import NodalAlgebra.Proofs.PointwiseNodes
import NodalAlgebra.Proofs.Provenance
import NodalAlgebra.Rules.Standard
import NodalAlgebra.Scalar.Float

/-!
# The order of errors

An evaluation is a row of checks: at an operation the kernel is looked up, then the operands
are gone through from left to right, and then the kernel is applied to their values
(`Expr.checks`). The first check that fails decides what the whole tree fails with
(`evaluate_first_failure`). It is made at the end of a path along which every operation has
its kernel and every operand to the left has a value (`FailsAt`), so the operands to the
right of the path do not matter (`FailsAt.of_agreeLeftOf`).
-/

namespace NodalAlgebra

variable {α : Type}

/-! ## Paths -/

namespace Expr

/-- The expression at the end of a path, which picks an operand at each operation. -/
def at? : Expr α → List Nat → Option (Expr α)
  | e, [] => some e
  | .operation _ es _, i :: path => es[i]?.bind fun e => at? e path
  | _, _ :: _ => none

/-- Two trees with the same operations along a path, the same operands to the left of it and
the same expression at its end. To the right of the path they have any operands, but equally
many. -/
inductive AgreeLeftOf : List Nat → Expr α → Expr α → Prop
  | here (e : Expr α) : AgreeLeftOf [] e e
  | operand {op : Operator} {es es' : List (Expr α)} {s : Shape} {i : Nat} {path : List Nat}
      {e e' : Expr α} :
      es[i]? = some e → es'[i]? = some e' → es'.take i = es.take i → es'.length = es.length →
      AgreeLeftOf path e e' →
      AgreeLeftOf (i :: path) (.operation op es s) (.operation op es' s)

end Expr

section

variable [Zero α] {R : Rules α}

/-! ## Where an evaluation fails -/

/-- An expression fails at the end of a path: the operation there fails on its own account,
every operation above it has its kernel, and every operand to the left has a value. -/
inductive FailsAt (R : Rules α) : List Nat → Expr α → Failure EvalError → Prop
  | here {op : Operator} {es : List (Expr α)} {s : Shape} {x : Failure EvalError} :
      Raises R op es s x → FailsAt R [] (.operation op es s) x
  | operand {op : Operator} {es : List (Expr α)} {s : Shape} {kernel : Kernel α} {i : Nat}
      {path : List Nat} {e : Expr α} {x : Failure EvalError} :
      R.select op es.length = .ok kernel → es[i]? = some e →
      (∀ b ∈ es.take i, ∃ v, evaluate R b = .ok v) → FailsAt R path e x →
      FailsAt R (i :: path) (.operation op es s) x

theorem Raises.evaluate_eq {op : Operator} {es : List (Expr α)} {s : Shape}
    {x : Failure EvalError} (h : Raises R op es s x) :
    evaluate R (.operation op es s) = .error x := by
  cases h with
  | selection hselect => exact evaluate_operation_eq_error.2 (.inl (by rw [hselect]; rfl))
  | application hselect hvs happly =>
      exact evaluate_operation_eq_error.2 (.inr ⟨_, hselect, .inr ⟨_, hvs, happly⟩⟩)

namespace FailsAt

variable {path : List Nat} {e e' : Expr α} {x : Failure EvalError}

/-- What fails somewhere fails as a whole, in the same way. -/
theorem evaluate_eq (h : FailsAt R path e x) : evaluate R e = .error x := by
  induction h with
  | here hraises => exact hraises.evaluate_eq
  | operand hselect he hleft _ ih => exact evaluate_of_operand hselect he hleft ih

/-- The failure is raised at the end of the path. -/
theorem exists_raises (h : FailsAt R path e x) :
    ∃ op es s, e.at? path = some (.operation op es s) ∧ Raises R op es s x := by
  induction h with
  | here hraises => exact ⟨_, _, _, rfl, hraises⟩
  | operand hselect he hleft _ ih =>
      obtain ⟨op, es, s, hat, hraises⟩ := ih
      refine ⟨op, es, s, ?_, hraises⟩
      rw [Expr.at?, he, Option.bind_some, hat]

/-- What stands to the right of the path does not matter. -/
theorem of_agreeLeftOf (h : FailsAt R path e x) (hagree : e.AgreeLeftOf path e') :
    FailsAt R path e' x := by
  induction h generalizing e' with
  | here hraises =>
      cases hagree with
      | here => exact .here hraises
  | operand hselect he hleft _ ih =>
      cases hagree with
      | operand he₁ he' htake hlength hagree =>
          cases he.symm.trans he₁
          exact .operand (hlength ▸ hselect) he' (htake ▸ hleft) (ih hagree)

end FailsAt

/-- Every failure of an expression is met at the end of some path. -/
theorem exists_failsAt_of_evaluate {e : Expr α} {x : Failure EvalError}
    (h : evaluate R e = .error x) : ∃ path, FailsAt R path e x := by
  induction e using Expr.induct with
  | function f => cases h
  | constant y => cases h
  | operation op es s ih =>
      rcases evaluate_operation_eq_error.1 h with hselect | ⟨kernel, hselect, h | ⟨vs, hvs, h⟩⟩
      · cases hkernel : R.select op es.length with
        | ok kernel => rw [hkernel] at hselect; cases hselect
        | error err =>
            rw [hkernel] at hselect
            cases hselect
            exact ⟨[], .here (.selection hkernel)⟩
      · rw [evaluateAll_eq_mapM] at h
        obtain ⟨before, e, after, rfl, hbefore, he⟩ := mapM_eq_error.1 h
        obtain ⟨path, hpath⟩ := ih e (by simp) he
        refine ⟨before.length :: path, .operand hselect (by simp) ?_ hpath⟩
        rwa [List.take_left]
      · exact ⟨[], .here (.application hselect hvs h)⟩

/-! ## Checks in a row -/

/-- A check of an evaluation: the path to the operation it is made for, and what it fails
with. -/
structure Check where
  path : List Nat
  failure? : Option (Failure EvalError)

namespace Check

/-- The same check, seen from the operation that has the tree as its operand `i`. -/
def under (i : Nat) (c : Check) : Check := { c with path := i :: c.path }

/-- Whether a check fails. -/
def fails (c : Check) : Bool := c.failure?.isSome

end Check

/-- What the look-up of an operation's kernel fails with. -/
def Rules.selectionFailure? (R : Rules α) (op : Operator) (operands : Nat) :
    Option (Failure EvalError) :=
  match R.select op operands with
  | .ok _ => none
  | .error err => some (.refused err)

/-- What the application of an operation's kernel fails with. It is not come to without a
kernel or without values of the operands. -/
def Rules.applicationFailure? (R : Rules α) (op : Operator) (es : List (Expr α)) (s : Shape) :
    Option (Failure EvalError) :=
  match R.select op es.length, evaluateAll R es with
  | .ok kernel, .ok vs =>
      match kernel.apply op s vs with
      | .ok _ => none
      | .error x => some x
  | _, _ => none

namespace Expr

mutual

/-- The checks of an expression in the order in which they are made: at an operation the
kernel is looked up, the operands are gone through, and the kernel is applied. -/
def checks (R : Rules α) : Expr α → List Check
  | .function _ => []
  | .constant _ => []
  | .operation op es s =>
      ⟨[], R.selectionFailure? op es.length⟩
        :: (checksAll R 0 es ++ [⟨[], R.applicationFailure? op es s⟩])

/-- The checks of some operands, of which the first one is operand `i`. -/
def checksAll (R : Rules α) (i : Nat) : List (Expr α) → List Check
  | [] => []
  | e :: rest => (checks R e).map (·.under i) ++ checksAll R (i + 1) rest

end

end Expr

theorem find?_map_under {cs : List Check} (i : Nat) :
    (cs.map (·.under i)).find? Check.fails = (cs.find? Check.fails).map (·.under i) := by
  rw [List.find?_map]
  rfl

theorem find?_checksAll_eq_none {es : List (Expr α)}
    (h : ∀ e ∈ es, (e.checks R).find? Check.fails = none) (i : Nat) :
    (Expr.checksAll R i es).find? Check.fails = none := by
  induction es generalizing i with
  | nil => rfl
  | cons e es ih =>
      rw [Expr.checksAll, List.find?_append, find?_map_under, h e (by simp), Option.map_none,
        Option.none_or]
      exact ih (fun b hb => h b (by simp [hb])) (i + 1)

/-- Where all operands before one pass their checks, its first failing check is the first of
all. -/
theorem find?_checksAll_eq_some {es : List (Expr α)} {i : Nat} {e : Expr α} {c : Check}
    (he : es[i]? = some e) (hleft : ∀ b ∈ es.take i, (b.checks R).find? Check.fails = none)
    (hc : (e.checks R).find? Check.fails = some c) (k : Nat) :
    (Expr.checksAll R k es).find? Check.fails = some (c.under (k + i)) := by
  induction es generalizing i k with
  | nil => cases he
  | cons b es ih =>
      rw [Expr.checksAll, List.find?_append, find?_map_under]
      cases i with
      | zero =>
          cases he
          rw [hc]
          rfl
      | succ i =>
          rw [hleft b (by simp), Option.map_none, Option.none_or,
            ih he (fun d hd => hleft d (by simp [hd])) (k + 1), Nat.add_right_comm, Nat.add_assoc]

/-- Once its kernel is found, the checks of an operation are those of its operands and the
application of the kernel. -/
theorem find?_checks_of_select {op : Operator} {es : List (Expr α)} {s : Shape}
    {kernel : Kernel α} (hselect : R.select op es.length = .ok kernel) :
    ((Expr.operation op es s).checks R).find? Check.fails
      = ((Expr.checksAll R 0 es).find? Check.fails).or
          ((R.applicationFailure? op es s).map fun x => ⟨[], some x⟩) := by
  have hselection : R.selectionFailure? op es.length = none := by
    rw [Rules.selectionFailure?, hselect]
  rw [Expr.checks, hselection, List.find?_cons_of_neg (by simp [Check.fails]), List.find?_append]
  cases R.applicationFailure? op es s <;> rfl

/-- What has a value passes all its checks. -/
theorem find?_checks_eq_none {e : Expr α} {v : Value α} (h : evaluate R e = .ok v) :
    (e.checks R).find? Check.fails = none := by
  induction e using Expr.induct generalizing v with
  | function f => rfl
  | constant x => rfl
  | operation op es s ih =>
      obtain ⟨kernel, vs, g, hselect, hvs, happly, -⟩ := evaluate_operation_eq_ok.1 h
      have hoperands : ∀ e ∈ es, (e.checks R).find? Check.fails = none := by
        intro e he
        obtain ⟨v, -, hv⟩ := exists_of_mem_forall₂ hvs.flip he
        exact ih e he hv
      have happlication : R.applicationFailure? op es s = none := by
        simp only [Rules.applicationFailure?, hselect, evaluateAll_eq_ok.2 hvs, happly]
      rw [find?_checks_of_select hselect, find?_checksAll_eq_none hoperands, happlication]
      rfl

/-- The failure of an expression is that of its first failing check, which is made at the end
of the path. -/
theorem FailsAt.find?_checks {path : List Nat} {e : Expr α} {x : Failure EvalError}
    (h : FailsAt R path e x) : (e.checks R).find? Check.fails = some ⟨path, some x⟩ := by
  induction h with
  | @here op es s x hraises =>
      cases hraises with
      | @selection err hselect =>
          have hselection : R.selectionFailure? op es.length = some (.refused err) := by
            rw [Rules.selectionFailure?, hselect]
          rw [Expr.checks, hselection]
          rfl
      | application hselect hvs happly =>
          have hoperands : ∀ e ∈ es, (e.checks R).find? Check.fails = none := by
            intro e he
            obtain ⟨v, -, hv⟩ := exists_of_mem_forall₂ hvs.flip he
            exact find?_checks_eq_none hv
          have happlication : R.applicationFailure? op es s = some x := by
            simp only [Rules.applicationFailure?, hselect, evaluateAll_eq_ok.2 hvs, happly]
          rw [find?_checks_of_select hselect, find?_checksAll_eq_none hoperands, happlication]
          rfl
  | @operand op es s kernel i path e x hselect he hleft _ ih =>
      have hoperands : ∀ b ∈ es.take i, (b.checks R).find? Check.fails = none := by
        intro b hb
        obtain ⟨v, hv⟩ := hleft b hb
        exact find?_checks_eq_none hv
      rw [find?_checks_of_select hselect, find?_checksAll_eq_some he hoperands ih 0, Nat.zero_add]
      rfl

/-- An expression fails exactly if a check fails, and with what the first one of them does. -/
theorem failsAt_iff_find?_checks {path : List Nat} {e : Expr α} {x : Failure EvalError} :
    FailsAt R path e x ↔ (e.checks R).find? Check.fails = some ⟨path, some x⟩ := by
  refine ⟨FailsAt.find?_checks, fun h => ?_⟩
  cases he : evaluate R e with
  | ok v =>
      rw [find?_checks_eq_none he] at h
      cases h
  | error y =>
      obtain ⟨path', hpath⟩ := exists_failsAt_of_evaluate he
      cases hpath.find?_checks.symm.trans h
      exact hpath

/-! ## What is reported -/

/-- The error of a kernel is reported as the kernel has it, under the operator that the kernel
is found for. -/
theorem Raises.exists_kernel_eq_error {op op' : Operator} {es : List (Expr α)} {s : Shape}
    {cause : KernelError} (h : Raises R op es s (.refused (.kernel op' cause))) :
    op' = op ∧ ∃ kernel args, R.tensor op = some kernel ∧ kernel args = .error cause := by
  cases h with
  | selection hselect =>
      rcases Rules.select_eq_error.1 hselect with ⟨_, -, -, hx⟩ | ⟨-, -, hx⟩ <;> cases hx
  | @application kernel vs _ hselect hvs happly =>
      cases kernel with
      | pointwise k =>
          rcases applyPointwise_eq_error (Failure.ofRefusal_eq_refused.1 happly) with
            hshared | ⟨_, applyError, -, -, hx⟩
          · rcases sharedSpace_eq_error hshared with ⟨hx, -⟩ | ⟨_, _, _, -, -, -, hx⟩ <;> cases hx
          · cases applyError <;> cases hx
      | tensor k =>
          rcases applyTensor_eq_error happly with ⟨_, hfs, hx⟩ | ⟨fs, _, -, hd, hx⟩
            | ⟨f, rest, -, -, ⟨-, hx⟩ | ⟨-, hspace | ⟨-, n, -, _, hnode, hx⟩⟩⟩
          · cases hx
            cases (functionOperands_eq_error.1 hfs).1
          · cases hx
            rcases sharedDiscretization_eq_error hd with ⟨hx, -⟩ | ⟨_, -, _, -, ⟨-, hx⟩ | ⟨-, hx⟩⟩
              <;> cases hx
          · cases hx
          · rcases FunctionSpace.ofShape_eq_error hspace with
              ⟨hx, -⟩ | ⟨_, hx, -⟩ | ⟨hx, -⟩ | ⟨hx, -⟩ <;> cases hx
          · cases hx
            rcases TensorKernel.atNode_eq_error.1 hnode with ⟨_, hcause, hx⟩ | ⟨_, -, -, hx⟩
            · cases hx
              exact ⟨rfl, k, _, Rules.tensor_of_select hselect, hcause⟩
            · cases hx

/-! ## The first failure -/

/-- The order of errors. An operation whose number of operands is wrong is refused for that,
and otherwise for want of a kernel, whatever the operands are. Otherwise it fails with its
first operand that does, and only if all operands have values the kernel is applied to them.
So a tree fails exactly if one of its checks does, and with the first failing one of them: an
operation raises the failure, at the end of a path, and a kernel's error is reported as the
kernel has it. Whatever stands to the right of the path, the tree fails with the same. -/
theorem evaluate_first_failure (R : Rules α) :
    (∀ op es s,
      (∀ k, op.arity? = some k → k ≠ es.length →
        evaluate R (.operation op es s) = .error (.refused (.arity op k es.length)))
      ∧ ((∀ k, op.arity? = some k → k = es.length) → R.supports op = false →
        evaluate R (.operation op es s) = .error (.refused (.unsupportedOperator op)))
      ∧ ((∀ k, op.arity? = some k → k = es.length) → R.supports op = true →
        ∃ kernel, R.select op es.length = .ok kernel
          ∧ (∀ i e x, es[i]? = some e → (∀ b ∈ es.take i, ∃ v, evaluate R b = .ok v) →
            evaluate R e = .error x → evaluate R (.operation op es s) = .error x)
          ∧ ∀ vs, List.Forall₂ (fun e v => evaluate R e = .ok v) es vs →
            evaluate R (.operation op es s) = (kernel.apply op s vs).map .function))
      ∧ ∀ e x,
        (evaluate R e = .error x ↔
          ∃ path, (e.checks R).find? Check.fails = some ⟨path, some x⟩)
        ∧ ∀ path, (e.checks R).find? Check.fails = some ⟨path, some x⟩ →
          (∃ op es s, e.at? path = some (.operation op es s) ∧ Raises R op es s x
            ∧ ∀ op' cause, x = .refused (.kernel op' cause) → op' = op
              ∧ ∃ kernel args, R.tensor op = some kernel ∧ kernel args = .error cause)
          ∧ ∀ e', e.AgreeLeftOf path e' → evaluate R e' = .error x := by
  refine ⟨fun op es s => ⟨?_, ?_, ?_⟩, fun e x => ⟨⟨?_, ?_⟩, fun path h => ⟨?_, ?_⟩⟩⟩
  · intro k hk hne
    exact (Raises.selection (Rules.select_eq_error.2 (.inl ⟨k, hk, hne, rfl⟩))).evaluate_eq
  · intro harity hnone
    exact (Raises.selection (Rules.select_eq_error.2 (.inr ⟨harity, hnone, rfl⟩))).evaluate_eq
  · intro harity hsome
    cases hselect : R.select op es.length with
    | error err =>
        rcases Rules.select_eq_error.1 hselect with ⟨k, hk, hne, -⟩ | ⟨-, hnone, -⟩
        · exact absurd (harity k hk) hne
        · rw [hnone] at hsome
          cases hsome
    | ok kernel =>
        refine ⟨kernel, rfl, fun i e x he hleft hx => evaluate_of_operand hselect he hleft hx, ?_⟩
        intro vs hvs
        simp only [evaluate, hselect, evaluateAll_eq_ok.2 hvs, Failure.ofRefusal_ok, ok_bind]
        rfl
  · intro h
    obtain ⟨path, hpath⟩ := exists_failsAt_of_evaluate h
    exact ⟨path, hpath.find?_checks⟩
  · rintro ⟨path, h⟩
    exact (failsAt_iff_find?_checks.2 h).evaluate_eq
  · obtain ⟨op, es, s, hat, hraises⟩ := (failsAt_iff_find?_checks.2 h).exists_raises
    refine ⟨op, es, s, hat, hraises, fun op' cause hx => ?_⟩
    exact (hx ▸ hraises).exists_kernel_eq_error
  · intro e' hagree
    exact ((failsAt_iff_find?_checks.2 h).of_agreeLeftOf hagree).evaluate_eq

end

/-- A sum of a selected component and of a sum without operands: the component is the first to
be refused, whatever stands in the place of the other operand. -/
theorem evaluate_first_failure_component :
    let component : Expr Float := .operation .indexed [.constant 1] .scalar
    let x : Failure EvalError := .refused (.unsupportedOperator .indexed)
    ((Expr.operation .sum [component, .operation .sum [] .scalar] .scalar).checks
        Rules.standard).find? Check.fails = some ⟨[0], some x⟩
      ∧ ∀ e, evaluate Rules.standard (.operation .sum [component, e] .scalar) = .error x := by
  intro component x
  have hfirst : ((Expr.operation .sum [component, .operation .sum [] .scalar] .scalar).checks
      Rules.standard).find? Check.fails = some ⟨[0], some x⟩ := rfl
  refine ⟨hfirst, fun e => ?_⟩
  obtain ⟨-, htree⟩ := evaluate_first_failure (Rules.standard : Rules Float)
  obtain ⟨-, hreplaced⟩ := (htree _ x).2 _ hfirst
  exact hreplaced _ (.operand rfl rfl rfl rfl (.here component))

end NodalAlgebra
