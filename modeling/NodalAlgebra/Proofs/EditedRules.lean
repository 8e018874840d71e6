import Mathlib.Algebra.Ring.Int.Defs
import Mathlib.Data.List.DropRight
import NodalAlgebra.Proofs.Provenance

/-!
# Building rules

The tables that a list of edits leads to are known operator by operator
(`KernelTables.pointwise_editAll`, `KernelTables.tensor_editAll`): an entry depends on the
entry at the start and on the edits that name the operator. Tables are rules exactly if no
operator has a defect, and otherwise the defect of the least operator with one is reported
(`Rules.build_eq_error`), in whatever order the operators of a table are come upon
(`KernelTables.firstDefect_eq`). Rules have at most one kernel for each operator, so
expressions have the same value if the tables are consulted in the other order
(`evaluateBy_selectPointwiseFirst`).
-/

namespace NodalAlgebra

variable {α : Type}

/-! ## Edits -/

namespace KernelTables

namespace Edit

/-- The operator that an edit names. -/
def op : Edit α → Operator
  | pointwise op _ => op
  | tensor op _ => op
  | remove op => op

/-- The kernel that an edit enters into the pointwise table. -/
def pointwise? : Edit α → Option (PointwiseKernel α)
  | pointwise _ kernel => some kernel
  | _ => none

/-- The kernel that an edit enters into the tensor table. -/
def tensor? : Edit α → Option (TensorKernel α)
  | tensor _ kernel => some kernel
  | _ => none

/-- Whether an edit takes its operator out of the tables. -/
def isRemove : Edit α → Bool
  | remove _ => true
  | _ => false

end Edit

/-- The edits that name an operator. -/
def naming (op : Operator) (edits : List (Edit α)) : List (Edit α) :=
  edits.filter fun e => e.op = op

/-- The entry that edits of one operator lead to: the last kernel entered into the table
since the last removal, else none if there has been a removal, else the entry at the
start. -/
def lastEntry {β : Type} (kernel? : Edit α → Option β) (start : Option β)
    (edits : List (Edit α)) : Option β :=
  ((edits.rtakeWhile fun e => !e.isRemove).filterMap kernel?).getLast?.or
    (if edits.any Edit.isRemove then none else start)

/-- A further edit removes the entry, enters another one or leaves it as it is. -/
theorem lastEntry_concat {β : Type} (kernel? : Edit α → Option β) (start : Option β)
    (edits : List (Edit α)) (e : Edit α) :
    lastEntry kernel? start (edits ++ [e])
      = if e.isRemove then none else (kernel? e).or (lastEntry kernel? start edits) := by
  unfold lastEntry
  rw [List.rtakeWhile_concat, List.any_append]
  cases hremove : e.isRemove with
  | true => simp [hremove]
  | false =>
      cases hkernel : kernel? e with
      | none => simp [hremove, hkernel]
      | some kernel => simp [hremove, hkernel]

theorem naming_concat (op : Operator) (edits : List (Edit α)) (e : Edit α) :
    naming op (edits ++ [e]) = if e.op = op then naming op edits ++ [e] else naming op edits := by
  unfold naming
  rw [List.filter_append]
  split
  · rename_i h
    simp [h]
  · rename_i h
    simp [h]

/-- An edit touches only the entries of the operator it names. -/
theorem pointwise_edit (t : KernelTables α) (e : Edit α) (op : Operator) :
    (t.edit e).pointwise op
      = if e.op = op then (if e.isRemove then none else e.pointwise?.or (t.pointwise op))
        else t.pointwise op := by
  cases e <;> simp [edit, Edit.op, Edit.isRemove, Edit.pointwise?, eq_comm]

theorem tensor_edit (t : KernelTables α) (e : Edit α) (op : Operator) :
    (t.edit e).tensor op
      = if e.op = op then (if e.isRemove then none else e.tensor?.or (t.tensor op))
        else t.tensor op := by
  cases e <;> simp [edit, Edit.op, Edit.isRemove, Edit.tensor?, eq_comm]

theorem editAll_concat (t : KernelTables α) (edits : List (Edit α)) (e : Edit α) :
    t.editAll (edits ++ [e]) = (t.editAll edits).edit e := by
  simp [editAll]

/-- If every edit changes an entry of a table as it should, a list of edits leads to the
last entry. -/
theorem entry_editAll {β : Type} (entry : KernelTables α → Option β)
    {kernel? : Edit α → Option β} {op : Operator}
    (hedit : ∀ t e, entry (edit t e)
      = if e.op = op then (if e.isRemove then none else (kernel? e).or (entry t)) else entry t)
    (t : KernelTables α) (edits : List (Edit α)) :
    entry (t.editAll edits) = lastEntry kernel? (entry t) (naming op edits) := by
  induction edits using List.reverseRecOn with
  | nil => simp [editAll, naming, lastEntry]
  | append_singleton edits e ih =>
      rw [editAll_concat, hedit, naming_concat]
      split
      · rw [lastEntry_concat, ih]
      · exact ih

theorem pointwise_editAll (t : KernelTables α) (edits : List (Edit α)) (op : Operator) :
    (t.editAll edits).pointwise op
      = lastEntry Edit.pointwise? (t.pointwise op) (naming op edits) :=
  entry_editAll (·.pointwise op) (fun t e => pointwise_edit t e op) t edits

theorem tensor_editAll (t : KernelTables α) (edits : List (Edit α)) (op : Operator) :
    (t.editAll edits).tensor op = lastEntry Edit.tensor? (t.tensor op) (naming op edits) :=
  entry_editAll (·.tensor op) (fun t e => tensor_edit t e op) t edits

/-- Edits of different operators can be made in any order. -/
theorem editAll_congr {t : KernelTables α} {edits edits' : List (Edit α)}
    (h : ∀ op, naming op edits' = naming op edits) : t.editAll edits' = t.editAll edits := by
  have hpointwise : (t.editAll edits').pointwise = (t.editAll edits).pointwise := by
    funext op
    rw [pointwise_editAll, pointwise_editAll, h]
  have htensor : (t.editAll edits').tensor = (t.editAll edits).tensor := by
    funext op
    rw [tensor_editAll, tensor_editAll, h]
  calc t.editAll edits'
      = ⟨(t.editAll edits').pointwise, (t.editAll edits').tensor⟩ := rfl
    _ = t.editAll edits := by rw [hpointwise, htensor]

theorem editAll_swap (t : KernelTables α) {before after : List (Edit α)} {e e' : Edit α}
    (h : e.op ≠ e'.op) :
    t.editAll (before ++ e' :: e :: after) = t.editAll (before ++ e :: e' :: after) := by
  refine editAll_congr fun op => ?_
  -- at most one of the two edits is kept
  have htwo : naming op [e', e] = naming op [e, e'] := by
    unfold naming
    by_cases he : e.op = op
    · have he' : e'.op ≠ op := fun heq => h (he.trans heq.symm)
      simp [he, he']
    · simp [List.filter_cons, he]
  have hsplit : ∀ x y : Edit α, naming op (before ++ x :: y :: after)
      = naming op before ++ (naming op [x, y] ++ naming op after) := by
    intro x y
    simp only [naming, ← List.filter_append, List.cons_append, List.nil_append]
  rw [hsplit, hsplit, htwo]

/-! ## Defects -/

/-- What is wrong with the entries of an operator: it has two kernels, or it has one
pointwise kernel that takes another number of operands. -/
inductive Defect (t : KernelTables α) (op : Operator) : RulesError → Prop
  | ambiguous : (t.pointwise op).isSome = true → (t.tensor op).isSome = true →
      Defect t op (.ambiguous op)
  | arity {kernel : PointwiseKernel α} {n : Nat} : t.pointwise op = some kernel →
      t.tensor op = none → op.arity? = some n → n ≠ kernel.arity →
      Defect t op (.arityMismatch op n kernel.arity)

theorem defect?_eq_some {t : KernelTables α} {op : Operator} {err : RulesError} :
    t.defect? op = some err ↔ t.Defect op err := by
  unfold defect?
  constructor
  · intro h
    split at h
    · cases h
    · rename_i kernel hpointwise
      split at h
      · rename_i htensor
        cases h
        exact .ambiguous (by rw [hpointwise]; rfl) htensor
      · rename_i htensor
        split at h
        · cases h
        · rename_i n hn
          split at h
          · cases h
          · rename_i hne
            cases h
            exact .arity hpointwise (by simpa using htensor) hn hne
  · intro h
    cases h with
    | ambiguous hpointwise htensor =>
        obtain ⟨kernel, hkernel⟩ := Option.isSome_iff_exists.1 hpointwise
        simp [hkernel, htensor]
    | arity hpointwise htensor hn hne => simp [hpointwise, htensor, hn, hne]

/-- An operator without a defect has a kernel in one table at most, and a pointwise kernel
takes as many operands as its operator. -/
theorem forall_not_defect {t : KernelTables α} {op : Operator} :
    (∀ err, ¬ t.Defect op err) ↔
      (t.pointwise op = none ∨ t.tensor op = none)
        ∧ ∀ kernel n, t.pointwise op = some kernel → op.arity? = some n → kernel.arity = n := by
  constructor
  · intro h
    have hone : t.pointwise op = none ∨ t.tensor op = none := by
      cases hpointwise : t.pointwise op with
      | none => exact .inl rfl
      | some kernel =>
          cases htensor : t.tensor op with
          | none => exact .inr rfl
          | some kernel' =>
              exact absurd (.ambiguous (by rw [hpointwise]; rfl) (by rw [htensor]; rfl)) (h _)
    refine ⟨hone, fun kernel n hpointwise hn => ?_⟩
    by_contra hne
    have htensor : t.tensor op = none := by
      rcases hone with hnone | htensor
      · rw [hpointwise] at hnone
        cases hnone
      · exact htensor
    exact h _ (.arity hpointwise htensor hn (Ne.symm hne))
  · rintro ⟨hone, harity⟩ err h
    cases h with
    | ambiguous hpointwise htensor =>
        rcases hone with hnone | hnone
        · simp [hnone] at hpointwise
        · simp [hnone] at htensor
    | arity hpointwise _ hn hne => exact hne (harity _ _ hpointwise hn).symm

theorem defect?_eq_none {t : KernelTables α} {op : Operator} :
    t.defect? op = none ↔ ∀ err, ¬ t.Defect op err := by
  simp only [Option.eq_none_iff_forall_ne_some, ne_eq, defect?_eq_some]

theorem isSome_of_defect {t : KernelTables α} {op : Operator} {err : RulesError}
    (h : t.Defect op err) : (t.pointwise op).isSome = true := by
  cases h with
  | ambiguous hpointwise _ => exact hpointwise
  | arity hpointwise _ _ _ => rw [hpointwise]; rfl

end KernelTables

/-! ## The least operator with a defect -/

/-- The place of an operator in the fixed order. -/
def Operator.rank (op : Operator) : Nat := op.ctorIdx

theorem Operator.rank_inj {op op' : Operator} (h : op.rank = op'.rank) : op = op' := by
  rw [← ofNat_ctorIdx op, ← ofNat_ctorIdx op']
  exact congrArg ofNat h

theorem Operator.pairwise_all : all.Pairwise fun op op' => op.rank ≤ op'.rank := by
  decide

section

variable {β : Type} {f : Operator → Option β} {l : List Operator} {b : β}

theorem least_of_findSome? (hl : l.Pairwise fun op op' => op.rank ≤ op'.rank)
    (h : l.findSome? f = some b) :
    ∃ op ∈ l, f op = some b ∧ ∀ op' ∈ l, op'.rank < op.rank → f op' = none := by
  obtain ⟨before, op, after, rfl, hop, hbefore⟩ := List.findSome?_eq_some_iff.1 h
  refine ⟨op, by simp, hop, fun op' hop' hlt => ?_⟩
  rcases List.mem_append.1 hop' with hop' | hop'
  · exact hbefore op' hop'
  · -- the operators from `op` on are not less than it
    rcases List.mem_cons.1 hop' with rfl | hop'
    · exact absurd hlt (Nat.lt_irrefl _)
    · have hle := (List.pairwise_cons.1 (List.pairwise_append.1 hl).2.1).1 op' hop'
      omega

/-- In a list in order, the first item found is that of the least operator with one. -/
theorem findSome?_eq_some_iff_least (hl : l.Pairwise fun op op' => op.rank ≤ op'.rank) :
    l.findSome? f = some b ↔
      ∃ op ∈ l, f op = some b ∧ ∀ op' ∈ l, op'.rank < op.rank → f op' = none := by
  refine ⟨least_of_findSome? hl, ?_⟩
  rintro ⟨op, hmem, hop, hleast⟩
  cases h : l.findSome? f with
  | none =>
      rw [List.findSome?_eq_none_iff.1 h op hmem] at hop
      cases hop
  | some b' =>
      -- neither of the two operators is less than the other one
      obtain ⟨op', hmem', hop', hleast'⟩ := least_of_findSome? hl h
      have hle : ¬ op.rank < op'.rank := fun hlt => by simp [hleast' op hmem hlt] at hop
      have hle' : ¬ op'.rank < op.rank := fun hlt => by simp [hleast op' hmem' hlt] at hop'
      obtain rfl : op' = op := Operator.rank_inj (by omega)
      exact hop'.symm.trans hop

end

namespace KernelTables

/-- The first defect met if the operators of the pointwise table, which are come upon in
any order, are put in order and gone through. -/
def firstDefect (t : KernelTables α) (keys : List Operator) : Option RulesError :=
  (keys.mergeSort fun op op' => op.rank ≤ op'.rank).findSome? t.defect?

theorem pairwise_mergeSort (keys : List Operator) :
    (keys.mergeSort fun op op' => op.rank ≤ op'.rank).Pairwise
      fun op op' => op.rank ≤ op'.rank := by
  have h : (keys.mergeSort fun op op' => op.rank ≤ op'.rank).Pairwise
      fun op op' => decide (op.rank ≤ op'.rank) = true := by
    refine List.pairwise_mergeSort (fun a b c hab hbc => ?_) (fun a b => ?_) keys
    · exact decide_eq_true (Nat.le_trans (of_decide_eq_true hab) (of_decide_eq_true hbc))
    · rw [Bool.or_eq_true, decide_eq_true_iff, decide_eq_true_iff]
      exact Nat.le_total _ _
  simpa using h

/-- The order in which the operators are come upon does not matter. -/
theorem firstDefect_eq {t : KernelTables α} {keys : List Operator}
    (hkeys : ∀ op, op ∈ keys ↔ (t.pointwise op).isSome = true) :
    t.firstDefect keys = Operator.all.findSome? t.defect? := by
  ext err
  rw [firstDefect, findSome?_eq_some_iff_least (pairwise_mergeSort keys),
    findSome?_eq_some_iff_least Operator.pairwise_all]
  have hmem : ∀ op err, t.defect? op = some err →
      op ∈ keys.mergeSort fun op op' => op.rank ≤ op'.rank := by
    intro op err h
    exact List.mem_mergeSort.2 ((hkeys op).2 (isSome_of_defect (defect?_eq_some.1 h)))
  constructor
  · rintro ⟨op, -, hop, hleast⟩
    refine ⟨op, op.mem_all, hop, fun op' _ hlt => ?_⟩
    cases hop' : t.defect? op' with
    | none => rfl
    | some err' => rw [hleast op' (hmem op' err' hop') hlt] at hop'; cases hop'
  · rintro ⟨op, -, hop, hleast⟩
    exact ⟨op, hmem op err hop, hop, fun op' _ hlt => hleast op' op'.mem_all hlt⟩

end KernelTables

/-! ## Rules -/

namespace Rules

variable {t : KernelTables α}

/-- Tables are made into rules with these tables. -/
theorem build_eq_ok {R : Rules α} : build t = .ok R ↔ R.toKernelTables = t := by
  obtain ⟨tables, hconsistent⟩ := R
  unfold build
  split
  · rename_i err herr
    obtain ⟨op, -, hop⟩ := List.exists_of_findSome?_eq_some herr
    simp only [reduceCtorEq, false_iff]
    rintro rfl
    rw [hconsistent op] at hop
    cases hop
  · simp [eq_comm]

theorem build_eq_error_iff_findSome? {err : RulesError} :
    build t = .error err ↔ Operator.all.findSome? t.defect? = some err := by
  unfold build
  split
  · rename_i err' herr
    simp [herr]
  · rename_i hnone
    simp [hnone]

/-- Tables are refused with the defect of the least operator that has one. -/
theorem build_eq_error {err : RulesError} :
    build t = .error err ↔
      ∃ op, t.Defect op err ∧ ∀ op', op'.rank < op.rank → ∀ err', ¬ t.Defect op' err' := by
  rw [build_eq_error_iff_findSome?, findSome?_eq_some_iff_least Operator.pairwise_all]
  simp only [Operator.mem_all, true_and, forall_const, KernelTables.defect?_eq_some,
    KernelTables.defect?_eq_none]

theorem exists_build_iff :
    (∃ R, build t = .ok R) ↔ ∀ op err, ¬ t.Defect op err := by
  constructor
  · rintro ⟨R, hR⟩ op
    rw [← build_eq_ok.1 hR]
    exact KernelTables.defect?_eq_none.1 (R.consistent op)
  · intro h
    exact ⟨⟨t, fun op => KernelTables.defect?_eq_none.2 (h op)⟩, build_eq_ok.2 rfl⟩

/-- Rules have at most one kernel for an operator. -/
theorem pointwise_or_tensor (R : Rules α) (op : Operator) :
    R.pointwise op = none ∨ R.tensor op = none :=
  (KernelTables.forall_not_defect.1 (KernelTables.defect?_eq_none.1 (R.consistent op))).1

/-- The kernel of an operator if the pointwise table is consulted first. -/
def selectPointwiseFirst (R : Rules α) (op : Operator) (operands : Nat) :
    Except EvalError (Kernel α) :=
  match op.arity? with
  | some n => if n = operands then lookUp else .error (.arity op n operands)
  | none => lookUp
where
  /-- The entry of the operator in either table. -/
  lookUp : Except EvalError (Kernel α) :=
    match R.pointwise op, R.tensor op with
    | some kernel, _ => .ok (.pointwise kernel)
    | none, some kernel => .ok (.tensor kernel)
    | none, none => .error (.unsupportedOperator op)

theorem selectPointwiseFirst_eq (R : Rules α) : R.selectPointwiseFirst = R.select := by
  funext op operands
  have hlookUp : selectPointwiseFirst.lookUp R op = select.lookUp R op := by
    unfold selectPointwiseFirst.lookUp select.lookUp
    rcases R.pointwise_or_tensor op with h | h
    · rw [h]
      cases R.tensor op <;> rfl
    · rw [h]
      cases R.pointwise op <;> rfl
  unfold selectPointwiseFirst select
  cases op.arity? with
  | none => exact hlookUp
  | some n => simp only [hlookUp]

end Rules

/-! ## Evaluation -/

section

variable [Zero α]

mutual

/-- The value of an expression whose kernels are looked up by `select`. -/
def evaluateBy (select : Operator → Nat → Except EvalError (Kernel α)) :
    Expr α → Except (Failure EvalError) (Value α)
  | .function f => .ok (.function f)
  | .constant x => .ok (.number x)
  | .operation op operands shape => do
      let kernel ← Failure.ofRefusal (select op operands.length)
      let values ← evaluateAllBy select operands
      return .function (← kernel.apply op shape values)

/-- The values of some expressions, from left to right. -/
def evaluateAllBy (select : Operator → Nat → Except EvalError (Kernel α)) :
    List (Expr α) → Except (Failure EvalError) (List (Value α))
  | [] => .ok []
  | e :: rest => do
      let value ← evaluateBy select e
      return value :: (← evaluateAllBy select rest)

end

theorem evaluateBy_select (R : Rules α) (e : Expr α) :
    evaluateBy R.select e = evaluate R e := by
  induction e using Expr.induct with
  | function f => rfl
  | constant x => rfl
  | operation op es s ih =>
      have hes : evaluateAllBy R.select es = evaluateAll R es := by
        induction es with
        | nil => rfl
        | cons e es ihs =>
            obtain ⟨he, hes⟩ := List.forall_mem_cons.1 ih
            rw [evaluateAllBy, evaluateAll, he, ihs hes]
      rw [evaluateBy, evaluate, hes]

/-- The order in which the two tables are consulted does not matter to any value. -/
theorem evaluateBy_selectPointwiseFirst (R : Rules α) (e : Expr α) :
    evaluateBy R.selectPointwiseFirst e = evaluate R e := by
  rw [R.selectPointwiseFirst_eq, evaluateBy_select]

/-! ## The builder -/

open KernelTables

/-- Whatever rules a builder starts from and whatever its edits are, an entry of its tables
is the last one that the edits of the operator lead to, so that edits of different
operators can be reordered. The tables are made into rules exactly if no operator has a
kernel in both and every pointwise kernel takes as many operands as its operator, else the
least operator at fault is reported, the one with two kernels as such; and it is found in
whatever order the operators are come upon. The rules have one kernel for an operator at
most, whichever table is consulted first. -/
theorem Rules.build_editAll (R : Rules α) (edits : List (Edit α)) :
    (∀ op, (R.editAll edits).pointwise op
          = lastEntry Edit.pointwise? (R.pointwise op) (naming op edits)
        ∧ (R.editAll edits).tensor op = lastEntry Edit.tensor? (R.tensor op) (naming op edits))
      ∧ (∀ edits', (∀ op, naming op edits' = naming op edits) →
        R.editAll edits' = R.editAll edits)
      ∧ (∀ before e e' after, edits = before ++ e :: e' :: after → e.op ≠ e'.op →
        R.editAll (before ++ e' :: e :: after) = R.editAll edits)
      ∧ ((∃ R', build (R.editAll edits) = .ok R') ↔
        (∀ op, (R.editAll edits).pointwise op = none ∨ (R.editAll edits).tensor op = none)
          ∧ ∀ op kernel n, (R.editAll edits).pointwise op = some kernel → op.arity? = some n →
            kernel.arity = n)
      ∧ (∀ err, build (R.editAll edits) = .error err ↔
        ∃ op, (R.editAll edits).Defect op err
          ∧ ∀ op', op'.rank < op.rank → ∀ err', ¬ (R.editAll edits).Defect op' err')
      ∧ (∀ keys, (∀ op, op ∈ keys ↔ ((R.editAll edits).pointwise op).isSome = true) →
        ∀ err, (R.editAll edits).firstDefect keys = some err ↔
          build (R.editAll edits) = .error err)
      ∧ ∀ R', build (R.editAll edits) = .ok R' →
        R'.toKernelTables = R.editAll edits
          ∧ (∀ op, R'.pointwise op = none ∨ R'.tensor op = none)
          ∧ ∀ e : Expr α, evaluateBy R'.selectPointwiseFirst e = evaluate R' e := by
  refine ⟨fun op => ⟨pointwise_editAll _ _ _, tensor_editAll _ _ _⟩,
    fun edits' h => editAll_congr h, ?_, ?_, fun err => build_eq_error,
    fun keys hkeys err => ?_,
    fun R' h => ⟨build_eq_ok.1 h, R'.pointwise_or_tensor, evaluateBy_selectPointwiseFirst R'⟩⟩
  · rintro before e e' after rfl hne
    exact editAll_swap R.toKernelTables hne
  · rw [exists_build_iff]
    simp only [forall_not_defect, forall_and]
  · rw [firstDefect_eq hkeys, build_eq_error_iff_findSome?]

/-- An operator with two kernels and a sum of one operand: the sum is reported, being the
lesser operator, and without the one and with a sum of two operands there are rules. -/
theorem Rules.build_editAll_sum :
    let edits : List (Edit Int) := [.pointwise .sin (.unary id),
      .tensor .sin TensorKernel.transpose, .pointwise .sum (.unary id)]
    let reordered : List (Edit Int) := [.pointwise .sum (.unary id),
      .pointwise .sin (.unary id), .tensor .sin TensorKernel.transpose]
    let further : List (Edit Int) := edits ++ [.remove .sin, .pointwise .sum (.binary (· + ·))]
    build (Rules.empty.editAll edits) = .error (.arityMismatch .sum 2 1)
      ∧ build (Rules.empty.editAll reordered) = .error (.arityMismatch .sum 2 1)
      ∧ (Rules.empty.editAll edits).firstDefect [.sin, .sum] = some (.arityMismatch .sum 2 1)
      ∧ ∃ R', build (Rules.empty.editAll further) = .ok R'
        ∧ ∀ e : Expr Int, evaluateBy R'.selectPointwiseFirst e = evaluate R' e := by
  intro edits reordered further
  obtain ⟨-, hreorder, -, -, herror, hkeys, -⟩ := Rules.build_editAll Rules.empty edits
  obtain ⟨-, -, -, hok, -, -, hrules⟩ := Rules.build_editAll Rules.empty further
  have hpointwise : (Rules.empty.editAll edits).pointwise .sum = some (.unary id) := rfl
  have hsum : build (Rules.empty.editAll edits) = .error (.arityMismatch .sum 2 1) := by
    refine (herror _).2 ⟨.sum, .arity hpointwise rfl rfl (by decide), fun op' h => ?_⟩
    exact absurd h (Nat.not_lt_zero _)
  have hsame : Rules.empty.editAll reordered = Rules.empty.editAll edits :=
    hreorder reordered fun op => by cases op <;> rfl
  have hfound := (hkeys [.sin, .sum] (fun op => by cases op <;> decide) _).2 hsum
  have hone : ∀ op, (Rules.empty.editAll further).pointwise op = none
      ∨ (Rules.empty.editAll further).tensor op = none := by
    intro op
    cases op with
    | sum => exact .inr rfl
    | _ => exact .inl rfl
  have harity : ∀ op kernel n, (Rules.empty.editAll further).pointwise op = some kernel →
      op.arity? = some n → kernel.arity = n := by
    intro op kernel n hkernel hn
    cases op with
    | sum =>
        cases hkernel
        cases hn
        rfl
    | _ => cases hkernel
  obtain ⟨R', hR'⟩ := hok.2 ⟨hone, harity⟩
  exact ⟨hsum, by rw [hsame, hsum], hfound, R', hR', (hrules R' hR').2.2⟩

end

end NodalAlgebra
