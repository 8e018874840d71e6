import NodalAlgebra.Operator
import NodalAlgebra.Kernel.Pointwise
import NodalAlgebra.Kernel.Tensor

/-!
# Evaluation rules

Which kernel evaluates which operator. Kernels are entered into two tables, one
for kernels that keep the space of their operands and one for kernels on tensor
values. Tables become rules once no operator is found in both and every
pointwise kernel takes as many operands as its operator.
-/

namespace NodalAlgebra

/-- A draft of rules: the kernels entered for each operator so far. -/
structure KernelTables (α : Type) where
  pointwise : Operator → Option (PointwiseKernel α)
  tensor : Operator → Option (TensorKernel α)

/-- Why tables are no rules. -/
inductive RulesError where
  /-- The operator has a kernel in both tables. -/
  | ambiguous (op : Operator)
  /-- The kernel takes another number of operands than the operator. -/
  | arityMismatch (op : Operator) (expected actual : Nat)
deriving DecidableEq

/-- The wording of the reasons. -/
def RulesError.message : RulesError → String
  | .ambiguous op =>
      s!"Operator {op.name} is registered as both same-space and tensor operator."
  | .arityMismatch op expected actual =>
      s!"Operator {op.name} takes {expected} operands, but its kernel takes {actual}."

namespace KernelTables

variable {α : Type}

/-! ## Validity -/

/-- What is wrong with the entries of an operator. -/
def defect? (t : KernelTables α) (op : Operator) : Option RulesError :=
  match t.pointwise op with
  | none => none
  | some kernel =>
      if (t.tensor op).isSome then some (.ambiguous op)
      else
        match op.arity? with
        | none => none
        | some n => if n = kernel.arity then none else some (.arityMismatch op n kernel.arity)

/-- Tables without kernels. -/
def empty : KernelTables α := ⟨fun _ => none, fun _ => none⟩

/-! ## Edits -/

/-- One change of the tables. -/
inductive Edit (α : Type) where
  | pointwise (op : Operator) (kernel : PointwiseKernel α)
  | tensor (op : Operator) (kernel : TensorKernel α)
  /-- Takes the operator out of both tables. -/
  | remove (op : Operator)

/-- The tables after an edit. -/
def edit (t : KernelTables α) : Edit α → KernelTables α
  | .pointwise op kernel =>
      { t with pointwise := fun o => if o = op then some kernel else t.pointwise o }
  | .tensor op kernel =>
      { t with tensor := fun o => if o = op then some kernel else t.tensor o }
  | .remove op =>
      { pointwise := fun o => if o = op then none else t.pointwise o
        tensor := fun o => if o = op then none else t.tensor o }

/-- The tables after a list of edits, the first edit first. -/
def editAll (t : KernelTables α) (edits : List (Edit α)) : KernelTables α :=
  edits.foldl edit t

end KernelTables

/-- Tables without a defect. -/
structure Rules (α : Type) extends KernelTables α where
  consistent : ∀ op, toKernelTables.defect? op = none

namespace Rules

variable {α : Type}

/-- The tables as rules, or the defect of the first operator that has one. -/
def build (t : KernelTables α) : Except RulesError (Rules α) :=
  match h : Operator.all.findSome? t.defect? with
  | some e => .error e
  | none => .ok ⟨t, fun op => List.findSome?_eq_none_iff.1 h op (Operator.mem_all op)⟩

/-- Rules without kernels. -/
def empty : Rules α := ⟨KernelTables.empty, fun _ => rfl⟩

/-- Whether an operator has a kernel. -/
def supports (R : Rules α) (op : Operator) : Bool :=
  (R.pointwise op).isSome || (R.tensor op).isSome

/-- The operators without a kernel, in order. -/
def unsupported (R : Rules α) : List Operator :=
  Operator.all.filter fun op => !R.supports op

end Rules

end NodalAlgebra
