import NodalAlgebra.Proofs.Discretization
import NodalAlgebra.Proofs.Interpolation
import NodalAlgebra.Proofs.Nodewise

/-!
# Expressions over fields

A field is a function of position together with a space to interpolate it in. An
expression over fields can be interpolated leaf by leaf and evaluated, or it can be
taken at a position, where every field has a tensor as its value. Evaluating the
interpolants gives the interpolant of what the expression is at each position
(`evaluate_interpolate`).
-/

namespace NodalAlgebra

/-- A tree of operators over fields and constants. -/
inductive FieldExpr (α : Type) where
  | field (V : FunctionSpace α) (φ : Array α → Array α)
  | constant (x : α)
  | operation (op : Operator) (operands : List (FieldExpr α)) (shape : Shape)

namespace FieldExpr

variable {α : Type}

/-- A property of fields, of constants, and of every operation whose operands all
have it, is one of all expressions over fields. -/
@[elab_as_elim]
theorem induct {P : FieldExpr α → Prop} (field : ∀ V φ, P (.field V φ))
    (constant : ∀ x, P (.constant x))
    (operation : ∀ op operands shape, (∀ t ∈ operands, P t) → P (.operation op operands shape))
    (t : FieldExpr α) : P t :=
  @FieldExpr.rec α P (fun ts => ∀ t ∈ ts, P t) field constant operation (by simp)
    (fun _ _ hhead htail => List.forall_mem_cons.2 ⟨hhead, htail⟩) t

/-! ## Spaces of the fields -/

mutual

/-- The spaces of the fields of a tree, from left to right. -/
def spaces : FieldExpr α → List (FunctionSpace α)
  | .field V _ => [V]
  | .constant _ => []
  | .operation _ operands _ => spacesAll operands

/-- The spaces of the fields of some trees. -/
def spacesAll : List (FieldExpr α) → List (FunctionSpace α)
  | [] => []
  | t :: rest => spaces t ++ spacesAll rest

end

theorem mem_spaces_operation {op : Operator} {ts : List (FieldExpr α)} {s : Shape}
    {V : FunctionSpace α} :
    V ∈ (FieldExpr.operation op ts s).spaces ↔ ∃ t ∈ ts, V ∈ t.spaces := by
  rw [spaces]
  induction ts with
  | nil => simp [spacesAll]
  | cons t ts ih => simp [spacesAll, ih]

/-! ## Values at a position -/

mutual

/-- What an expression is at a position: a field has the tensor of its components
there, and an operation applies its kernel to what its operands are. -/
def valueAt (R : Rules α) (x : Array α) : FieldExpr α → Option (NodeValue α)
  | .field V φ => (TensorValue.read? V.element.valueShape.dims (φ x)).map .tensor
  | .constant y => some (.number y)
  | .operation op operands _ => do
      let kernel ← (R.select op operands.length).toOption
      let args ← valuesAt R x operands
      return .tensor (← kernel.applyAt args)

/-- What some expressions are at a position. -/
def valuesAt (R : Rules α) (x : Array α) : List (FieldExpr α) → Option (List (NodeValue α))
  | [] => some []
  | t :: rest => do
      let value ← valueAt R x t
      return value :: (← valuesAt R x rest)

end

theorem valuesAt_eq_mapM (R : Rules α) (x : Array α) (ts : List (FieldExpr α)) :
    valuesAt R x ts = ts.mapM (valueAt R x) := by
  induction ts with
  | nil => rfl
  | cons t ts ih => rw [valuesAt, ih, List.mapM_cons]

/-- The components, in row-major order, of what an expression is at a position. -/
def componentsAt (R : Rules α) (t : FieldExpr α) (x : Array α) : Array α :=
  match t.valueAt R x with
  | some (.tensor a) => a.components
  | some (.number y) => #[y]
  | none => #[]

/-! ## Interpolation of the fields -/

section

variable [Zero α] [Add α] [Div α] [NatCast α]

mutual

/-- The expression in which every field is replaced by its interpolant. -/
def interpolate : FieldExpr α → Except (Failure SpaceError) (Expr α)
  | .field V φ => do return .function (← NodalFunction.interpolate V φ)
  | .constant x => .ok (.constant x)
  | .operation op operands s => do return .operation op (← interpolateAll operands) s

/-- The expressions of some trees, from left to right. -/
def interpolateAll : List (FieldExpr α) → Except (Failure SpaceError) (List (Expr α))
  | [] => .ok []
  | t :: rest => do
      let e ← interpolate t
      return e :: (← interpolateAll rest)

end

theorem interpolate_field_eq_ok {V : FunctionSpace α} {φ : Array α → Array α} {e : Expr α} :
    (FieldExpr.field V φ).interpolate = .ok e ↔
      ∃ f, NodalFunction.interpolate V φ = .ok f ∧ e = .function f := by
  rw [interpolate, bind_eq_ok]
  simp only [pure_eq_ok, Except.ok.injEq]
  exact exists_congr fun f => and_congr_right fun _ => eq_comm

theorem interpolate_operation_eq_ok {op : Operator} {ts : List (FieldExpr α)} {s : Shape}
    {e : Expr α} :
    (FieldExpr.operation op ts s).interpolate = .ok e ↔
      ∃ es, List.Forall₂ (fun (t : FieldExpr α) e => t.interpolate = .ok e) ts es
        ∧ e = .operation op es s := by
  have hall : interpolateAll ts = ts.mapM (interpolate (α := α)) := by
    induction ts with
    | nil => rfl
    | cons t ts ih => rw [interpolateAll, ih, List.mapM_cons]
  rw [interpolate, hall, bind_eq_ok]
  simp only [mapM_eq_ok, pure_eq_ok, Except.ok.injEq]
  exact exists_congr fun es => and_congr_right fun _ => eq_comm

/-- The functions of the expression are unmarked interpolants in the spaces of the
fields. -/
theorem space_mem_of_interpolate {t : FieldExpr α} {e : Expr α} (h : t.interpolate = .ok e)
    {f : NodalFunction α} (hf : f ∈ e.functions) : f.space ∈ t.spaces ∧ f.mark = none := by
  induction t using FieldExpr.induct generalizing e with
  | field V φ =>
      obtain ⟨f', hf', rfl⟩ := interpolate_field_eq_ok.1 h
      obtain rfl : f = f' := by simpa [Expr.functions] using hf
      obtain ⟨rfl, hmark, -⟩ := NodalFunction.interpolate_eq_ok.1 hf'
      exact ⟨by simp [spaces], hmark⟩
  | constant x =>
      cases h
      simp [Expr.functions] at hf
  | operation op ts s ih =>
      obtain ⟨es, hes, rfl⟩ := interpolate_operation_eq_ok.1 h
      obtain ⟨e, he, hfe⟩ := Expr.mem_functions_operation.1 hf
      obtain ⟨t, ht, hte⟩ := exists_of_mem_forall₂ hes he
      obtain ⟨hmem, hmark⟩ := ih t ht hte hfe
      exact ⟨mem_spaces_operation.2 ⟨t, ht, hmem⟩, hmark⟩

/-- The space of every field is that of a function of the expression. -/
theorem exists_function_of_interpolate {t : FieldExpr α} {e : Expr α} (h : t.interpolate = .ok e)
    {V : FunctionSpace α} (hV : V ∈ t.spaces) : ∃ f ∈ e.functions, f.space = V := by
  induction t using FieldExpr.induct generalizing e with
  | field W φ =>
      obtain ⟨f, hf, rfl⟩ := interpolate_field_eq_ok.1 h
      obtain rfl : V = W := by simpa [spaces] using hV
      exact ⟨f, by simp [Expr.functions], (NodalFunction.interpolate_eq_ok.1 hf).1⟩
  | constant x => simp [spaces] at hV
  | operation op ts s ih =>
      obtain ⟨es, hes, rfl⟩ := interpolate_operation_eq_ok.1 h
      obtain ⟨t, ht, hVt⟩ := mem_spaces_operation.1 hV
      obtain ⟨e, he, hte⟩ := exists_of_mem_forall₂ hes.flip ht
      obtain ⟨f, hf, hspace⟩ := ih t ht hte hVt
      exact ⟨f, Expr.mem_functions_operation.2 ⟨e, he, hf⟩, hspace⟩

/-- At the coordinates of a node, an expression over fields is what the expression
of the interpolants stands for at the node. -/
theorem valueAt_of_interpolate {R : Rules α} {t : FieldExpr α} {e : Expr α}
    (h : t.interpolate = .ok e) {n : Nat} {x : Array α}
    (hx : ∀ V ∈ t.spaces, V.nodePoints[n]? = some x) :
    t.valueAt R x = e.valueAt R (·.nodeValue? n) := by
  induction t using FieldExpr.induct generalizing e with
  | field V φ =>
      obtain ⟨f, hf, rfl⟩ := interpolate_field_eq_ok.1 h
      rw [valueAt, Expr.valueAt, NodalFunction.nodeValue?_interpolate hf (hx V (by simp [spaces]))]
  | constant y =>
      cases h
      rfl
  | operation op ts s ih =>
      obtain ⟨es, hes, rfl⟩ := interpolate_operation_eq_ok.1 h
      have hvalues : List.Forall₂ (fun (t : FieldExpr α) (e : Expr α) =>
          t.valueAt R x = e.valueAt R (·.nodeValue? n)) ts es := by
        refine forall₂_imp hes fun t ht e hte => ih t ht hte ?_
        exact fun V hV => hx V (mem_spaces_operation.2 ⟨t, ht, hV⟩)
      rw [valueAt, Expr.valueAt, valuesAt_eq_mapM, Expr.valuesAt_eq_mapM, mapM_congr hvalues,
        hes.length_eq]

end

end FieldExpr

/-! ## Evaluation of interpolants -/

section

variable {α : Type} [Zero α] [Add α] [Div α] [NatCast α] {R : Rules α}

/-- Fields are interpolated on constructed meshes. If the expression of their
interpolants evaluates to a function, it is the interpolant, in its own space, of
what the expression is at each position. -/
theorem evaluate_interpolate {supply : MeshSupply} {meshes : List (Mesh α)}
    (hissued : supply.Issued meshes) {t : FieldExpr α} (hmeshes : ∀ V ∈ t.spaces, V.mesh ∈ meshes)
    {e : Expr α} (he : t.interpolate = .ok e) {g : NodalFunction α}
    (h : evaluate R e = .ok (.function g)) :
    NodalFunction.interpolate g.space (t.componentsAt R) = .ok g := by
  have hleaves : ∀ f ∈ e.functions, f.space.mesh ∈ meshes := by
    intro f hf
    exact hmeshes f.space (FieldExpr.space_mem_of_interpolate he hf).1
  -- all fields are interpolated at the nodes of the result
  have hpoints : ∀ V ∈ t.spaces, V.nodePoints = g.space.nodePoints := by
    intro V hV
    obtain ⟨f, hf, rfl⟩ := FieldExpr.exists_function_of_interpolate he hV
    exact FunctionSpace.nodePoints_eq (mesh_of_evaluate hissued hleaves h hf)
      (congrArg Prod.fst (discretizationId_of_evaluate h hf))
  have hmark : g.mark = none :=
    mark_of_evaluate h fun f hf => (FieldExpr.space_mem_of_interpolate he hf).2
  refine NodalFunction.interpolate_eq_ok.2 ⟨rfl, hmark, ?_⟩
  intro n x hx
  have hn : n < g.space.nodeCount := by
    rw [← g.space.length_nodePoints]
    exact (List.getElem?_eq_some_iff.1 hx).1
  obtain ⟨a, ha⟩ := g.exists_nodeValue? hn
  have hvalue : e.valueAt R (·.nodeValue? n) = some (.tensor a) :=
    valueAt_of_evaluate h (by simp [Value.at?, ha])
  have hposition : t.valueAt R x = some (.tensor a) := by
    rw [FieldExpr.valueAt_of_interpolate he fun V hV => (hpoints V hV).symm ▸ hx, hvalue]
  rw [FieldExpr.componentsAt, hposition]
  exact (NodalFunction.nodeValue?_eq_some_iff_block.1 ha).2.2.symm

end

theorem segment_issued {α : Type} (a b : α) : MeshSupply.Issued ⟨1⟩ [segment a b] :=
  .accepted .initial (MeshSupply.build_eq_ok.2 ⟨Mesh.build_eq_ok.2 ⟨rfl, rfl, rfl, rfl⟩, rfl⟩)

/-- A transposed field on a segment. -/
theorem evaluate_interpolate_segment :
    let φ : Array Int → Array Int := fun x => #[1, x[0]?.getD 0, 0, 1]
    let t : FieldExpr Int :=
      .operation .transposed [.field (segmentMatrices 3 5) φ] (.matrix 2 2)
    let R : Rules Int :=
      { pointwise := fun _ => none
        tensor := fun op => if op = .transposed then some TensorKernel.transpose else none
        consistent := fun op => by cases op <;> rfl }
    ∃ e g, t.interpolate = .ok e ∧ evaluate R e = .ok (.function g)
      ∧ NodalFunction.interpolate g.space (t.componentsAt R) = .ok g := by
  intro φ t R
  have he : t.interpolate = .ok (.operation .transposed
      [.function (segmentFunction 3 5 #[1, 3, 0, 1, 1, 5, 0, 1] rfl)] (.matrix 2 2)) := rfl
  have h : evaluate R (.operation .transposed
      [.function (segmentFunction 3 5 #[1, 3, 0, 1, 1, 5, 0, 1] rfl)] (.matrix 2 2))
      = .ok (.function (segmentFunction 3 5 #[1, 0, 3, 1, 1, 0, 5, 1] rfl)) := rfl
  refine ⟨_, _, he, h, evaluate_interpolate (segment_issued 3 5) ?_ he h⟩
  intro V hV
  obtain rfl : V = segmentMatrices 3 5 := List.mem_singleton.1 hV
  exact List.mem_singleton.2 rfl

end NodalAlgebra
