import NodalAlgebra.Expr.Build
import NodalAlgebra.Proofs.CheckedKernels
import NodalAlgebra.Scalar.Float

/-!
# Kernels and inferred shapes

The shape of an operation is inferred when its expression is built, and a kernel compares
the shapes of its operands itself. Both agree: a standard tensor kernel has a value of the
inferred shape exactly where one of rank at most two is inferred, apart from singular
matrices and from the dot product of two numbers, and provided that there is a table for
the value (`CheckedKernel.standard_follows_shapes`). Without one it faults
(`CheckedKernel.dot_faults_on_wide`).
-/

namespace NodalAlgebra

variable {α : Type}

/-! ## Values with a table -/

namespace Shape

/-- The components can be counted and put into one table. -/
structure Storable (α : Type) [ByteSize α] (s : Shape) : Prop where
  counted : s.Counted
  bytes_lt : s.componentCount * ByteSize.bytes α < Size.byteLimit

variable [ByteSize α] {s : Shape}

theorem table?_eq_ok {n : Nat} :
    s.table? α = .ok n ↔ s.Storable α ∧ n = s.componentCount := by
  rw [table?, bind_eq_ok]
  constructor
  · rintro ⟨m, hm, h⟩
    obtain ⟨hcounted, rfl⟩ := componentCount?_eq_ok.1 hm
    obtain ⟨hbytes, rfl⟩ := Size.table?_eq_ok.1 h
    exact ⟨⟨hcounted, hbytes⟩, rfl⟩
  · rintro ⟨h, rfl⟩
    exact ⟨_, componentCount?_eq_ok.2 ⟨h.counted, rfl⟩, Size.table?_eq_ok.2 ⟨h.bytes_lt, rfl⟩⟩

/-- There is always a table for a number. -/
theorem storable_scalar : Shape.scalar.Storable α :=
  (table?_eq_ok.1 CheckedKernel.table?_scalar).1

theorem exists_table?_eq_error (h : ¬ s.Storable α) : ∃ cause, s.table? α = .error cause := by
  cases htable : s.table? α with
  | error cause => exact ⟨cause, rfl⟩
  | ok n => exact absurd (table?_eq_ok.1 htable).1 h

end Shape

namespace TensorKernel

variable [ByteSize α] {kernel : TensorKernel α} {args : List (TensorValue α)} {a : TensorValue α}

theorem inTable_of_storable (h : kernel args = .ok a) (ha : a.shape.Storable α) :
    kernel.inTable args = .ok a := by
  rw [inTable, h, Failure.ofRefusal_ok, ok_bind, Shape.table?_eq_ok.2 ⟨ha, rfl⟩]
  rfl

theorem inTable_of_not_storable (h : kernel args = .ok a) (ha : ¬ a.shape.Storable α) :
    ∃ cause, kernel.inTable args = .error (.fault cause) := by
  obtain ⟨cause, hcause⟩ := Shape.exists_table?_eq_error ha
  refine ⟨cause, ?_⟩
  rw [inTable, h, Failure.ofRefusal_ok, ok_bind, hcause]
  rfl

/-- With a table asked for, a kernel faults only for want of the table. -/
theorem inTable_eq_fault {cause : Fault} (h : kernel.inTable args = .error (.fault cause)) :
    ∃ a, kernel args = .ok a ∧ ¬ a.shape.Storable α := by
  cases ha : kernel args with
  | error e =>
      rw [inTable, ha] at h
      cases h
  | ok a =>
      refine ⟨a, rfl, fun hstorable => ?_⟩
      rw [inTable_of_storable ha hstorable] at h
      cases h

theorem inTable_of_refused {cause : KernelError} (h : kernel args = .error cause) :
    kernel.inTable args = .error (.refused cause) := by
  rw [inTable, h]
  rfl

/-- With tables asked for, a kernel is still decided by the shapes of its operands. -/
theorem DecidedByShapes.inTable {stop : KernelError → Prop} (h : kernel.DecidedByShapes stop)
    {stop' : Failure KernelError → Prop} (hstop : ∀ e, stop e → stop' (.refused e))
    {args' : List (TensorValue α)}
    (hargs : List.Forall₂ (fun a b : TensorValue α => a.shape = b.shape) args args') :
    Parallel stop' (fun a b => a.shape = b.shape) (kernel.inTable args) (kernel.inTable args') := by
  refine ((h args args' hargs).ofRefusal hstop).bind fun a b hab => ?_
  rw [hab]
  cases b.shape.table? α with
  | error cause => exact .failures (Failure.fault cause)
  | ok n => exact .answers hab

end TensorKernel

/-! ## Accepted operands -/

theorem isSome_standardTensor_eq [Zero α] [One α] [Add α] [Sub α] [Mul α] [Div α] [NatCast α]
    [LinearSolver α] (op : Operator) :
    (KernelTables.standardTensor (α := α) op).isSome = op.isTensorial := by
  cases op <;> rfl

/-- The only operand of an operator that needs an inverse is singular. -/
def Operator.MeetsSingular [LinearSolver α] (op : Operator) (args : List (TensorValue α)) : Prop :=
  op.inverts = true ∧ ∃ a, args = [a] ∧ a.Singular

section

variable [Zero α] [One α] [Add α] [Sub α] [Mul α] [Div α] [NatCast α] [LinearSolver α]
  {op : Operator} {kernel : TensorKernel α} {args : List (TensorValue α)}

/-- For operands of accepted shapes a standard kernel has a value of the expected shape, if
its rank is at most two. -/
theorem standardTensor_accepts (hkernel : KernelTables.standardTensor op = some kernel) {s : Shape}
    (hshape : op.resultShape (args.map TensorValue.shape) = .ok s) (hrank : s.rank ≤ 2)
    (hregular : ¬ op.MeetsSingular args) : ∃ b, kernel args = .ok b ∧ b.shape = s := by
  match args, hshape, hregular with
  | [], hshape, _ => cases hshape
  | [a], hshape, hregular =>
      refine standardTensor_unary hkernel hshape fun hinverts hsingular => ?_
      exact hregular ⟨hinverts, a, rfl, hsingular⟩
  | [a, b], hshape, _ => exact standardTensor_binary hkernel hshape hrank
  | _ :: _ :: _ :: _, hshape, _ => cases hshape

theorem standardTensor_meetsSingular (hkernel : KernelTables.standardTensor op = some kernel)
    (h : op.MeetsSingular args) : kernel args = .error .singular := by
  obtain ⟨hinverts, a, rfl, ha⟩ := h
  exact standardTensor_singular hkernel hinverts ha

end

/-! ## Agreement -/

/-- An operator applied to any number of expressions. -/
def Expr.ofOperands (op : Operator) : List (Expr α) → Except ShapeError (Expr α)
  | [a] => unary op a
  | [a, b] => binary op a b
  | es => .error (.operandCount op es.length)

/-- An operation can be built if the shapes of its operands decide a shape, which is its
own then. -/
theorem Expr.ofOperands_eq_ok {op : Operator} {es : List (Expr α)} {e : Expr α} :
    ofOperands op es = .ok e ↔
      ∃ s, op.resultShape (es.map shape) = .ok s ∧ .operation op es s = e := by
  match es with
  | [] | _ :: _ :: _ :: _ => simp [ofOperands, Operator.resultShape]
  | [a] =>
      show (op.unaryShape a.shape >>= fun s => pure (.operation op [a] s)) = .ok e ↔ _
      simp only [bind_eq_ok, pure_eq_ok, Except.ok.injEq]
      rfl
  | [a, b] =>
      show (op.binaryShape a.shape b.shape >>= fun s => pure (.operation op [a, b] s)) = .ok e ↔ _
      simp only [bind_eq_ok, pure_eq_ok, Except.ok.injEq]
      rfl

theorem map_shape_eq {es : List (Expr α)} {args : List (TensorValue α)}
    (h : List.Forall₂ (fun e a => e.shape = a.shape) es args) :
    es.map Expr.shape = args.map TensorValue.shape := by
  rwa [← List.forall₂_eq_eq_eq, List.forall₂_map_left_iff, List.forall₂_map_right_iff]

theorem TensorValue.exists_scalar {a : TensorValue α} (h : a.shape = .scalar) :
    ∃ x, a = .scalar x := by
  cases a with
  | scalar x => exact ⟨x, rfl⟩
  | vector v => cases h
  | matrix c => cases h

section

variable [Zero α] [One α] [Add α] [Sub α] [Mul α] [Div α] [NatCast α] [LinearSolver α]
  {op : Operator} {kernel : TensorKernel α} {args : List (TensorValue α)} {es : List (Expr α)}

/-- Where an expression of rank at most two can be built, a standard kernel has a value of its
shape. -/
theorem standardTensor_of_ofOperands (hkernel : KernelTables.standardTensor op = some kernel)
    (hes : List.Forall₂ (fun e a => e.shape = a.shape) es args) {e : Expr α}
    (he : Expr.ofOperands op es = .ok e) (hrank : e.shape.rank ≤ 2)
    (hregular : ¬ op.MeetsSingular args) : ∃ b, kernel args = .ok b ∧ b.shape = e.shape := by
  obtain ⟨s, hs, rfl⟩ := Expr.ofOperands_eq_ok.1 he
  rw [map_shape_eq hes] at hs
  exact standardTensor_accepts hkernel hs hrank hregular

/-- Where none can be built, it rejects the operands. -/
theorem standardTensor_rejects_of_ofOperands
    (hkernel : KernelTables.standardTensor op = some kernel)
    (hes : List.Forall₂ (fun e a => e.shape = a.shape) es args)
    (h : ∀ e, Expr.ofOperands op es = .ok e → 2 < e.shape.rank)
    (hdot : ¬ (op = .dot ∧ args.map TensorValue.shape = [.scalar, .scalar])) :
    kernel.Rejects args := by
  refine standardTensor_rejects hkernel (fun s hs => ?_) hdot
  rw [← map_shape_eq hes] at hs
  exact h _ (Expr.ofOperands_eq_ok.2 ⟨s, hs, rfl⟩)

/-- The dot product of two numbers is their product, though it is no expression. -/
theorem standardTensor_dot_scalars (hkernel : KernelTables.standardTensor .dot = some kernel)
    (hes : List.Forall₂ (fun e a => e.shape = a.shape) es args)
    (hargs : args.map TensorValue.shape = [.scalar, .scalar]) :
    (∀ e, Expr.ofOperands .dot es ≠ .ok e)
      ∧ ∃ x y, args = [.scalar x, .scalar y] ∧ kernel args = .ok (.scalar (x * y)) := by
  constructor
  · intro e he
    obtain ⟨s, hs, -⟩ := Expr.ofOperands_eq_ok.1 he
    rw [map_shape_eq hes, hargs] at hs
    cases hs
  · obtain ⟨a, b, rfl, ha, hb⟩ := map_eq_pair hargs
    obtain ⟨x, rfl⟩ := TensorValue.exists_scalar ha
    obtain ⟨y, rfl⟩ := TensorValue.exists_scalar hb
    cases hkernel
    exact ⟨x, y, rfl, rfl⟩

end

namespace CheckedKernel

section

variable [Zero α] [One α] [Add α] [Sub α] [Mul α] [Div α] [NatCast α] [LinearSolver α] [ByteSize α]

/-- A kernel faults only where an expression of rank at most two can be built whose value no
table holds. -/
theorem exists_unstorable_of_fault {op : Operator} {plain : TensorKernel α}
    (hplain : KernelTables.standardTensor op = some plain) {args : List (TensorValue α)}
    {es : List (Expr α)} (hes : List.Forall₂ (fun e a => e.shape = a.shape) es args)
    {cause : Fault} (h : plain.inTable args = .error (.fault cause)) :
    ∃ e, Expr.ofOperands op es = .ok e ∧ e.shape.rank ≤ 2 ∧ ¬ op.MeetsSingular args
      ∧ ¬ e.shape.Storable α := by
  obtain ⟨a, ha, hstorable⟩ := TensorKernel.inTable_eq_fault h
  have hregular : ¬ op.MeetsSingular args := by
    intro hsingular
    cases ha.symm.trans (standardTensor_meetsSingular hplain hsingular)
  by_cases hbuilt : ∃ e, Expr.ofOperands op es = .ok e ∧ e.shape.rank ≤ 2
  · obtain ⟨e, he, hrank⟩ := hbuilt
    obtain ⟨b, hb, hshape⟩ := standardTensor_of_ofOperands hplain hes he hrank hregular
    cases ha.symm.trans hb
    exact ⟨e, he, hrank, hregular, hshape ▸ hstorable⟩
  · -- what is rejected has no value, and that of two numbers has a table
    by_cases hdot : op = .dot ∧ args.map TensorValue.shape = [.scalar, .scalar]
    · obtain ⟨rfl, hargs⟩ := hdot
      obtain ⟨-, x, y, -, hvalue⟩ := standardTensor_dot_scalars hplain hes hargs
      cases ha.symm.trans hvalue
      exact absurd Shape.storable_scalar hstorable
    · have hrank : ∀ e, Expr.ofOperands op es = .ok e → 2 < e.shape.rank := fun e he =>
        Nat.lt_of_not_le fun hle => hbuilt ⟨e, he, hle⟩
      obtain ⟨cause', hrejects, -⟩ := standardTensor_rejects_of_ofOperands hplain hes hrank hdot
      cases ha.symm.trans hrejects

/-- Every operator of linear algebra has a standard kernel. Its outcome, up to the components
of its value, is decided by the number and the shapes of the operands, unless a matrix that
has to be inverted is singular. It faults for no operands, except where an expression of a
shape of rank at most two can be built whose value no table holds. Where an expression of
such a rank can be built on expressions of the operands' shapes, the kernel has a value of
its shape, if a table holds it and no matrix to be inverted is singular. Everywhere else the
kernel refuses its operands, the dot product of two numbers apart. -/
theorem standard_follows_shapes {op : Operator} (hop : op.isTensorial = true) :
    ∃ kernel : CheckedKernel α, standard op = some kernel
      ∧ (∀ args args', List.Forall₂ (fun a b : TensorValue α => a.shape = b.shape) args args' →
        Parallel (fun cause => op.inverts = true ∧ cause = .refused .singular)
          (fun a b => a.shape = b.shape) (kernel args) (kernel args'))
      ∧ ∀ (args : List (TensorValue α)) (es : List (Expr α)),
        List.Forall₂ (fun e a => e.shape = a.shape) es args →
        (∀ cause, kernel args = .error (.fault cause) → ∃ e, Expr.ofOperands op es = .ok e
          ∧ e.shape.rank ≤ 2 ∧ ¬ op.MeetsSingular args ∧ ¬ e.shape.Storable α)
        ∧ (∀ e, Expr.ofOperands op es = .ok e → e.shape.rank ≤ 2 →
          (op.MeetsSingular args → kernel args = .error (.refused .singular))
          ∧ (¬ op.MeetsSingular args → e.shape.Storable α →
            ∃ b, kernel args = .ok b ∧ b.shape = e.shape)
          ∧ (¬ op.MeetsSingular args → ¬ e.shape.Storable α →
            ∃ cause, kernel args = .error (.fault cause)))
        ∧ ((∀ e, Expr.ofOperands op es = .ok e → 2 < e.shape.rank) →
          ¬ (op = .dot ∧ args.map TensorValue.shape = [.scalar, .scalar]) →
          ∃ cause, kernel args = .error (.refused cause) ∧ cause ≠ .singular)
        ∧ (op = .dot → args.map TensorValue.shape = [.scalar, .scalar] →
          (∀ e, Expr.ofOperands op es ≠ .ok e)
          ∧ ∃ x y, args = [.scalar x, .scalar y] ∧ kernel args = .ok (.scalar (x * y))) := by
  obtain ⟨plain, hplain⟩ : ∃ plain, KernelTables.standardTensor (α := α) op = some plain := by
    rw [← Option.isSome_iff_exists, isSome_standardTensor_eq, hop]
  refine ⟨plain.inTable, by rw [standard_eq, hplain]; rfl, ?_, ?_⟩
  · intro args args' hargs
    exact (standardTensor_decidedByShapes hplain).inTable
      (fun cause hcause => ⟨hcause.1, congrArg Failure.refused hcause.2⟩) hargs
  · intro args es hes
    refine ⟨fun cause hcause => exists_unstorable_of_fault hplain hes hcause, ?_, ?_, ?_⟩
    · intro e he hrank
      refine ⟨fun hsingular => ?_, fun hregular hstorable => ?_, fun hregular hstorable => ?_⟩
      · exact TensorKernel.inTable_of_refused (standardTensor_meetsSingular hplain hsingular)
      · obtain ⟨b, hb, hshape⟩ := standardTensor_of_ofOperands hplain hes he hrank hregular
        exact ⟨b, TensorKernel.inTable_of_storable hb (hshape ▸ hstorable), hshape⟩
      · obtain ⟨b, hb, hshape⟩ := standardTensor_of_ofOperands hplain hes he hrank hregular
        exact TensorKernel.inTable_of_not_storable hb (hshape ▸ hstorable)
    · intro hrank hdot
      obtain ⟨cause, hcause, hne⟩ := standardTensor_rejects_of_ofOperands hplain hes hrank hdot
      exact ⟨cause, TensorKernel.inTable_of_refused hcause, hne⟩
    · rintro rfl hargs
      obtain ⟨hnone, x, y, heq, hvalue⟩ := standardTensor_dot_scalars hplain hes hargs
      exact ⟨hnone, x, y, heq, TensorKernel.inTable_of_storable hvalue Shape.storable_scalar⟩

end

/-- A matrix with two rows and three columns, times a vector. -/
theorem standard_follows_shapes_dot :
    let a : TensorValue Float := .matrix (r := 2) (c := 3) ⟨#v[1, 2, 3, 4, 5, 6]⟩
    let v : TensorValue Float := .vector #v[1, 0, 1]
    Operator.dot.isTensorial = true
      ∧ ∃ kernel b, standard .dot = some kernel ∧ kernel [a, v] = .ok b ∧ b.shape = .vector 2 := by
  intro a v
  let es : List (Expr Float) := [.operation .sum [] a.shape, .operation .sum [] v.shape]
  have hes : List.Forall₂ (fun e b => e.shape = b.shape) es [a, v] := .cons rfl (.cons rfl .nil)
  have he : Expr.ofOperands .dot es = .ok (.operation .dot es (.vector 2)) := rfl
  have hstorable : (Shape.vector 2).Storable Float := (Shape.table?_eq_ok.1 rfl).1
  have hop : Operator.dot.isTensorial = true := rfl
  obtain ⟨kernel, hkernel, -, hagrees⟩ := standard_follows_shapes (α := Float) hop
  obtain ⟨-, hbuilt, -, -⟩ := hagrees [a, v] es hes
  obtain ⟨-, hvalue, -⟩ := hbuilt _ he (show 1 ≤ 2 by omega)
  obtain ⟨b, hb, hshape⟩ := hvalue (fun h => by cases h.1) hstorable
  exact ⟨hop, kernel, b, hkernel, hb, hshape⟩

/-- A vector without components, times a matrix without rows and with `2 ^ 62` columns: the
expression can be built, and the kernel has no table for its value. -/
theorem dot_faults_on_wide :
    let u : TensorValue Float := .vector #v[]
    let b : TensorValue Float := .matrix (r := 0) (c := 0x4000000000000000) ⟨⟨#[], rfl⟩⟩
    ∃ (kernel : CheckedKernel Float) (e : Expr Float), standard .dot = some kernel
      ∧ Expr.ofOperands .dot [.operation .sum [] u.shape, .operation .sum [] b.shape] = .ok e
      ∧ e.shape = .vector 0x4000000000000000
      ∧ kernel [u, b] = .error (.fault .capacity) := by
  intro u b
  exact ⟨dot, .operation .dot [.operation .sum [] u.shape, .operation .sum [] b.shape]
    (.vector 0x4000000000000000), rfl, rfl, rfl, rfl⟩

end CheckedKernel

end NodalAlgebra
