import NodalAlgebra.Evaluate.Nodal
import NodalAlgebra.Expr.Kind
import NodalAlgebra.Proofs.Sequence

/-!
# Expression trees

Induction over expressions whose operands are lists (`Expr.induct`), the functions
at the leaves of a tree, and trees that differ at their leaves only
(`Expr.Alike`). An operation has a value exactly if its kernel is found, all
operands have values and the kernel applies to them (`evaluate_operation_eq_ok`);
it fails with the first of these steps that does (`evaluate_operation_eq_error`).
-/

namespace NodalAlgebra

namespace Expr

variable {α : Type}

/-- A property of functions, of constants, and of every operation whose operands
all have it, is one of all expressions. -/
@[elab_as_elim]
theorem induct {P : Expr α → Prop} (function : ∀ f, P (.function f))
    (constant : ∀ x, P (.constant x))
    (operation : ∀ op operands shape, (∀ e ∈ operands, P e) → P (.operation op operands shape))
    (e : Expr α) : P e :=
  @Expr.rec α P (fun es => ∀ e ∈ es, P e) function constant operation (by simp)
    (fun _ _ hhead htail => List.forall_mem_cons.2 ⟨hhead, htail⟩) e

/-! ## Leaves -/

mutual

/-- The functions at the leaves of a tree, from left to right. -/
def functions : Expr α → List (NodalFunction α)
  | .function f => [f]
  | .constant _ => []
  | .operation _ operands _ => functionsAll operands

/-- The functions at the leaves of some trees. -/
def functionsAll : List (Expr α) → List (NodalFunction α)
  | [] => []
  | e :: rest => functions e ++ functionsAll rest

end

theorem mem_functionsAll {f : NodalFunction α} {es : List (Expr α)} :
    f ∈ functionsAll es ↔ ∃ e ∈ es, f ∈ e.functions := by
  induction es with
  | nil => simp [functionsAll]
  | cons e es ih => simp [functionsAll, ih]

theorem mem_functions_operation {op : Operator} {es : List (Expr α)} {s : Shape}
    {f : NodalFunction α} :
    f ∈ (Expr.operation op es s).functions ↔ ∃ e ∈ es, f ∈ e.functions := by
  rw [functions, mem_functionsAll]

/-- Two trees of the same operations and declared shapes, whose functions are
related by `F` and whose constants are related by `C`, leaf by leaf. -/
inductive Alike (F : NodalFunction α → NodalFunction α → Prop) (C : α → α → Prop) :
    Expr α → Expr α → Prop
  | function {f g} : F f g → Alike F C (.function f) (.function g)
  | constant {x y} : C x y → Alike F C (.constant x) (.constant y)
  | operation {op es es' s} : List.Forall₂ (Alike F C) es es' →
      Alike F C (.operation op es s) (.operation op es' s)

/-- Trees are alike in a further way if their functions are, leaf by leaf. -/
theorem Alike.imp {F G : NodalFunction α → NodalFunction α → Prop} {C : α → α → Prop}
    {e e' : Expr α} (h : Alike F C e e')
    (hFG : ∀ f ∈ e.functions, ∀ g ∈ e'.functions, F f g → G f g) : Alike G C e e' := by
  induction e using induct generalizing e' with
  | function f =>
      cases h with
      | function hF => exact .function (hFG _ (by simp [functions]) _ (by simp [functions]) hF)
  | constant x =>
      cases h with
      | constant hC => exact .constant hC
  | operation op es s ih =>
      cases h with
      | operation hes =>
          refine .operation (forall₂_imp_mem hes fun e he e' he' h => ih e he h ?_)
          intro f hf g hg
          exact hFG f (mem_functions_operation.2 ⟨e, he, hf⟩) g
            (mem_functions_operation.2 ⟨e', he', hg⟩)

/-- The functions of trees that are alike are related, leaf by leaf. -/
theorem Alike.forall₂_functions {F : NodalFunction α → NodalFunction α → Prop} {C : α → α → Prop}
    {e e' : Expr α} (h : Alike F C e e') : List.Forall₂ F e.functions e'.functions := by
  induction e using induct generalizing e' with
  | function f =>
      cases h with
      | function hF => exact .cons hF .nil
  | constant x =>
      cases h with
      | constant => exact .nil
  | operation op es s ih =>
      cases h with
      | operation hes =>
          rw [functions, functions]
          induction hes with
          | nil => exact .nil
          | cons he _ htail =>
              rw [functionsAll, functionsAll]
              exact List.rel_append (ih _ (by simp) he) (htail fun e he => ih e (by simp [he]))

/-- Every operation of a tree, wherever it stands, has a property. -/
inductive EachOperation (P : Operator → List (Expr α) → Shape → Prop) : Expr α → Prop
  | function (f : NodalFunction α) : EachOperation P (.function f)
  | constant (x : α) : EachOperation P (.constant x)
  | operation {op : Operator} {es : List (Expr α)} {s : Shape} :
      P op es s → (∀ e ∈ es, EachOperation P e) → EachOperation P (.operation op es s)

section

variable {P : Operator → List (Expr α) → Shape → Prop} {op : Operator} {s : Shape}

theorem eachOperation_operation {es : List (Expr α)} :
    EachOperation P (.operation op es s) ↔ P op es s ∧ ∀ e ∈ es, EachOperation P e := by
  constructor
  · intro h
    cases h with
    | operation hop hes => exact ⟨hop, hes⟩
  · rintro ⟨hop, hes⟩
    exact .operation hop hes

theorem eachOperation_unary {a : Expr α} :
    EachOperation P (.operation op [a] s) ↔ P op [a] s ∧ EachOperation P a := by
  rw [eachOperation_operation, List.forall_mem_singleton]

theorem eachOperation_binary {a b : Expr α} :
    EachOperation P (.operation op [a, b] s)
      ↔ P op [a, b] s ∧ EachOperation P a ∧ EachOperation P b := by
  rw [eachOperation_operation, List.forall_mem_cons, List.forall_mem_singleton]

end

/-! ## Lists of trees -/

theorem valuesAt_eq_mapM (R : Rules α) (leaf : NodalFunction α → Option (TensorValue α))
    (es : List (Expr α)) : valuesAt R leaf es = es.mapM (valueAt R leaf) := by
  induction es with
  | nil => rfl
  | cons e es ih => rw [valuesAt, ih, List.mapM_cons]

theorem kinds?_eq_mapM (es : List (Expr α)) : kinds? es = es.mapM kind? := by
  induction es with
  | nil => rfl
  | cons e es ih => rw [kinds?, ih, List.mapM_cons]

theorem valueAt_operation_eq_some {R : Rules α} {leaf : NodalFunction α → Option (TensorValue α)}
    {op : Operator} {es : List (Expr α)} {s : Shape} {v : NodeValue α} :
    valueAt R leaf (.operation op es s) = some v ↔
      ∃ kernel args a, R.select op es.length = .ok kernel
        ∧ List.Forall₂ (fun e arg => valueAt R leaf e = some arg) es args
        ∧ kernel.applyAt args = some a ∧ v = .tensor a := by
  rw [valueAt, valuesAt_eq_mapM]
  cases R.select op es.length with
  | error e => simp [Except.toOption]
  | ok kernel =>
      simp only [Except.toOption, Option.bind_eq_bind, Option.bind_some, Option.bind_eq_some_iff,
        mapM_eq_some, Except.ok.injEq, Option.pure_def, Option.some.injEq]
      constructor
      · rintro ⟨args, hargs, a, ha, rfl⟩
        exact ⟨kernel, args, a, rfl, hargs, ha, rfl⟩
      · rintro ⟨_, args, a, rfl, hargs, ha, rfl⟩
        exact ⟨args, hargs, a, ha, rfl⟩

end Expr

/-! ## Evaluation -/

section Evaluation

variable {α : Type} [Zero α] {R : Rules α}

theorem evaluateAll_eq_mapM (es : List (Expr α)) :
    evaluateAll R es = es.mapM (evaluate R) := by
  induction es with
  | nil => rfl
  | cons e es ih => rw [evaluateAll, ih, List.mapM_cons]

theorem evaluateAll_eq_ok {es : List (Expr α)} {vs : List (Value α)} :
    evaluateAll R es = .ok vs ↔ List.Forall₂ (fun e v => evaluate R e = .ok v) es vs := by
  rw [evaluateAll_eq_mapM, mapM_eq_ok]

theorem evaluate_operation_eq_ok {op : Operator} {es : List (Expr α)} {s : Shape} {v : Value α} :
    evaluate R (.operation op es s) = .ok v ↔
      ∃ kernel vs g, R.select op es.length = .ok kernel
        ∧ List.Forall₂ (fun e v => evaluate R e = .ok v) es vs
        ∧ kernel.apply op s vs = .ok g ∧ v = .function g := by
  simp only [evaluate, bind_eq_ok, Failure.ofRefusal_eq_ok, evaluateAll_eq_ok]
  constructor
  · rintro ⟨kernel, hk, vs, hvs, g, hg, h⟩
    cases h
    exact ⟨kernel, vs, g, hk, hvs, hg, rfl⟩
  · rintro ⟨kernel, vs, g, hk, hvs, hg, rfl⟩
    exact ⟨kernel, hk, vs, hvs, g, hg, rfl⟩

theorem evaluate_operation_eq_error {op : Operator} {es : List (Expr α)} {s : Shape}
    {x : Failure EvalError} :
    evaluate R (.operation op es s) = .error x ↔
      Failure.ofRefusal (R.select op es.length) = .error x
        ∨ ∃ kernel, R.select op es.length = .ok kernel
          ∧ (evaluateAll R es = .error x
            ∨ ∃ vs, List.Forall₂ (fun e v => evaluate R e = .ok v) es vs
              ∧ kernel.apply op s vs = .error x) := by
  simp only [evaluate, bind_eq_error, Failure.ofRefusal_eq_ok, evaluateAll_eq_ok]
  simp [pure, Except.pure]

/-- An operation fails with its first operand that does. -/
theorem evaluate_of_operand {op : Operator} {es : List (Expr α)} {s : Shape} {kernel : Kernel α}
    (hselect : R.select op es.length = .ok kernel) {i : Nat} {e : Expr α} (he : es[i]? = some e)
    (hleft : ∀ b ∈ es.take i, ∃ v, evaluate R b = .ok v) {x : Failure EvalError}
    (h : evaluate R e = .error x) : evaluate R (.operation op es s) = .error x := by
  have hall : evaluateAll R es = .error x := by
    rw [evaluateAll_eq_mapM]
    exact mapM_eq_error.2 ⟨_, e, _, take_append_cons_drop he, hleft, h⟩
  exact evaluate_operation_eq_error.2 (.inr ⟨kernel, hselect, .inl hall⟩)

/-- Only a constant evaluates to a number. -/
theorem evaluate_eq_number {e : Expr α} {x : α} :
    evaluate R e = .ok (.number x) ↔ e = .constant x := by
  cases e with
  | function f => simp [evaluate]
  | constant y => simp [evaluate]
  | operation op es s =>
      constructor
      · intro h
        obtain ⟨_, _, _, _, _, _, h⟩ := evaluate_operation_eq_ok.1 h
        cases h
      · intro h
        cases h

end Evaluation

end NodalAlgebra
