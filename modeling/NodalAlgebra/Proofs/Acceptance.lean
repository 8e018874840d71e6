import NodalAlgebra.Proofs.Faults
import NodalAlgebra.Proofs.Fields
import NodalAlgebra.Proofs.InverseLaws
import NodalAlgebra.Proofs.Kinds
import NodalAlgebra.Proofs.ShapeInference

/-!
# Acceptance of shaped expressions

Over constructed meshes, an expression in which every operation declares the shape
that follows from its operands has a value exactly if its kind can be inferred, no
matrix that is to be inverted is singular at a node, and the declared shapes fit
(`evaluate_eq_ok_iff_kind?`). The value is of the inferred kind.
-/

namespace NodalAlgebra

variable {α : Type}

/-! ## Pointwise kernels -/

theorem exists_apply_unary {φ : α → α} {v : Value α} {V : FunctionSpace α}
    (h : sharedSpace [v] = .ok V) :
    ∃ cs, (PointwiseKernel.unary φ).apply ([v].map Value.operand) = .ok cs := by
  cases v with
  | function f => exact ⟨_, rfl⟩
  | number x => cases h

theorem exists_apply_binary {φ : α → α → α} {v w : Value α} {V : FunctionSpace α}
    (h : sharedSpace [v, w] = .ok V)
    (hsize : ∀ f g, v = .function f → w = .function g → f.space.isCompatible g.space = true →
      f.coefficients.size = g.coefficients.size) :
    ∃ cs, (PointwiseKernel.binary φ).apply ([v, w].map Value.operand) = .ok cs := by
  cases v with
  | function f =>
      cases w with
      | function g =>
          obtain ⟨_, _, hfs, -, hcompatible⟩ := sharedSpace_eq_ok.1 h
          cases hfs
          exact ⟨_, if_pos (hsize f g rfl rfl (hcompatible g (by simp)))⟩
      | number y => exact ⟨_, rfl⟩
  | number x =>
      cases w with
      | function g => exact ⟨_, rfl⟩
      | number y => cases h

/-! ## Operations that have values -/

section

variable [Zero α] {supply : MeshSupply} {meshes : List (Mesh α)}

theorem exists_pointwiseOperation {R : Rules α} {op : Operator} {kernel : PointwiseKernel α}
    {es : List (Expr α)} {s : Shape} {vs : List (Value α)} {V : FunctionSpace α} {cs : Array α}
    (hselect : R.select op es.length = .ok (.pointwise kernel))
    (hvs : List.Forall₂ (fun e v => evaluate R e = .ok v) es vs) (hV : sharedSpace vs = .ok V)
    (hcs : kernel.apply (vs.map Value.operand) = .ok cs) :
    ∃ v, evaluate R (.operation op es s) = .ok v := by
  obtain ⟨g, hg⟩ := exists_applyPointwise op hV hcs
  exact ⟨.function g, evaluate_operation_eq_ok.2
    ⟨.pointwise kernel, vs, g, hselect, hvs, Failure.ofRefusal_eq_ok.2 hg, rfl⟩⟩

/-- A tensor operation whose kind can be inferred has a value, if the declared shape
has components and fits, and the kernel has a value of that shape at every node. -/
theorem exists_tensorOperation {R : Rules α} (hissued : supply.Issued meshes) {op : Operator}
    {kernel : TensorKernel α} {es : List (Expr α)} {s : Shape} {vs : List (Value α)}
    {k : ValueKind} (hmeshes : ∀ f ∈ Expr.functionsAll es, f.space.mesh ∈ meshes)
    (hselect : R.select op es.length = .ok (.tensor kernel))
    (hvs : List.Forall₂ (fun e v => evaluate R e = .ok v) es vs)
    (hkind : ValueKind.ofDeclared s (vs.map Value.kind) = some k) (hpos : s.Positive)
    (hfit : ∀ f ∈ Expr.functionsAll es, s.Fits f.space.nodeCount)
    (hkernel : ∀ (fs : List (NodalFunction α)) n, vs = fs.map .function →
      (∀ f ∈ fs, n < f.space.nodeCount) → s.rank ≤ 2 →
      ∃ a, kernel.atNode op s fs n = .ok a) :
    ∃ v, evaluate R (.operation op es s) = .ok v := by
  obtain ⟨f, rest, element, rfl, hagree, helement, -⟩ := ofDeclared_eq_some.1 hkind
  have hrank : s.rank ≤ 2 := by
    rw [← (FiniteElement.ofShape?_eq_some.1 helement).2]
    exact FiniteElement.rank_valueShape_le element
  -- the values live on meshes of the leaves
  have hvalues : ∀ g ∈ f :: rest, g.space.mesh ∈ meshes := by
    intro g hg
    obtain ⟨e, he, heg⟩ := exists_of_mem_forall₂ hvs (List.mem_map.2 ⟨g, hg, rfl⟩)
    obtain ⟨f', hf', hmesh⟩ := exists_mesh_of_evaluate heg
    exact hmesh ▸ hmeshes f' (Expr.mem_functionsAll.2 ⟨e, he, hf'⟩)
  have hcounts : ∀ g ∈ rest, g.space.nodeCount = f.space.nodeCount := fun g hg =>
    hissued.nodeCount_eq (hvalues f (by simp)) (hvalues g (by simp [hg])) (hagree g hg)
  have hfits : s.Fits f.space.nodeCount := by
    obtain ⟨e, he, hef⟩ := exists_of_mem_forall₂ hvs (b := .function f) (by simp)
    obtain ⟨f', hf', hcount⟩ := exists_nodeCount_of_evaluate hef
    exact hcount ▸ hfit f' (Expr.mem_functionsAll.2 ⟨e, he, hf'⟩)
  obtain ⟨W, hW⟩ := FunctionSpace.exists_ofShape hrank hpos.componentCount_pos hfits
  obtain ⟨g, hg⟩ := exists_applyTensor op kernel hagree hcounts hW
    fun n hn => hkernel (f :: rest) n rfl
      (List.forall_mem_cons.2 ⟨hn, fun g hg => hcounts g hg ▸ hn⟩) hrank
  exact ⟨.function g, evaluate_operation_eq_ok.2
    ⟨.tensor kernel, _, g, hselect, hvs, hg, rfl⟩⟩

end

/-! ## Expressions that have values -/

section

variable [Zero α] [One α] [Add α] [Sub α] [Mul α] [Div α] [NatCast α] [Elementary α]
  [LinearSolver α]

/-- No operation that needs an inverse meets a singular matrix at a node. -/
def Expr.Regular : Expr α → Prop :=
  EachOperation fun op es _ => op.inverts = true →
    ∀ e ∈ es, ∀ n a, e.valueAt Rules.standard (·.nodeValue? n) = some (.tensor a) → ¬ a.Singular

theorem Operator.eq_of_inverts {op : Operator} (h : op.inverts = true) :
    op = .inverse ∨ op = .cofactor := by
  cases op <;> simp_all [inverts]

/-- An expression that has a value meets no singular matrix. -/
theorem regular_of_evaluate {e : Expr α} (he : e.Shaped) {v : Value α}
    (h : evaluate Rules.standard e = .ok v) : e.Regular := by
  induction he generalizing v with
  | function f => exact .function f
  | constant x => exact .constant x
  | @unary op e s he hs ih =>
      obtain ⟨kernel, vs, g, hselect, hvs, hg, rfl⟩ := evaluate_operation_eq_ok.1 h
      obtain ⟨v, rfl, hv⟩ := forall₂_singleton hvs
      refine Expr.eachOperation_unary.2 ⟨?_, ih hv⟩
      intro hinverts e' he' n a ha hsingular
      obtain rfl := List.mem_singleton.1 he'
      rcases select_of_unaryShape (α := α) hs with ⟨_, _, htensorial, _⟩ | ⟨k, hk, -, hkernel⟩
      · rcases Operator.eq_of_inverts hinverts with rfl | rfl
        · cases htensorial
        · cases htensorial
      · cases hselect.symm.trans hk
        obtain ⟨f, rest, hfs, -, -, hmesh, helement, -, -, hvalues⟩ := applyTensor_eq_ok.1 hg
        obtain ⟨rfl, hrest⟩ := List.cons.inj hfs
        obtain rfl := List.map_eq_nil_iff.1 hrest.symm
        -- the node is one of the operand's, and the kernel had a value there
        have hfa := nodeValue?_of_valueAt hv ha
        have hn : n < g.space.nodeCount := by
          rw [FunctionSpace.nodeCount_eq hmesh helement]
          exact (NodalFunction.nodeValue?_eq_some.1 hfa).1
        obtain ⟨b, hb, -⟩ := hvalues n hn
        have hmet : [f].filterMap (·.nodeValue? n) = [a] := by simp [hfa]
        rw [hmet, standardTensor_singular hkernel hinverts hsingular] at hb
        cases hb
  | @binary op a b s ha hb hs iha ihb =>
      obtain ⟨_, vs, _, -, hvs, -, rfl⟩ := evaluate_operation_eq_ok.1 h
      obtain ⟨v, w, rfl, hv, hw⟩ := forall₂_pair hvs
      refine Expr.eachOperation_binary.2 ⟨?_, iha hv, ihb hw⟩
      intro hinverts
      rcases Operator.eq_of_inverts hinverts with rfl | rfl
      · cases hs
      · cases hs
  | component ha hindex =>
      obtain ⟨_, _, _, hselect, -, -, -⟩ := evaluate_operation_eq_ok.1 h
      rw [select_indexed] at hselect
      cases hselect

variable {supply : MeshSupply} {meshes : List (Mesh α)}

/-- The declared shapes of an expression that has a value fit. -/
theorem sizesFit_of_evaluate (hissued : supply.Issued meshes) {e : Expr α}
    (hmeshes : ∀ f ∈ e.functions, f.space.mesh ∈ meshes) {v : Value α}
    (h : evaluate Rules.standard e = .ok v) : e.SizesFit := by
  induction e using Expr.induct generalizing v with
  | function f => exact .function f
  | constant x => exact .constant x
  | operation op es s ih =>
      obtain ⟨kernel, vs, g, hselect, hvs, hg, rfl⟩ := evaluate_operation_eq_ok.1 h
      refine Expr.eachOperation_operation.2 ⟨?_, ?_⟩
      · intro htensorial f hf
        obtain ⟨-, htensor⟩ := isTensorial_of_select hselect
        rw [htensorial] at htensor
        cases kernel with
        | pointwise k => cases htensor
        | tensor k =>
            obtain ⟨_, _, _, _, _, _, _, hshape, _, _⟩ := applyTensor_eq_ok.1 hg
            rw [NodalFunction.valueShape_eq_whole] at hshape
            have hcount : f.space.nodeCount = g.space.nodeCount :=
              FunctionSpace.nodeCount_eq (mesh_of_evaluate hissued hmeshes h hf)
                (congrArg Prod.fst (discretizationId_of_evaluate h hf))
            rw [← hshape, hcount]
            exact g.space.fits
      · intro e he
        obtain ⟨v, -, hv⟩ := exists_of_mem_forall₂ hvs.flip he
        exact ih e he (fun f hf => hmeshes f (Expr.mem_functions_operation.2 ⟨e, he, hf⟩)) hv

/-! ## Expressions that are accepted -/

/-- An operation on one operand that has a value has one itself, if its kind can be
inferred, it meets no singular matrix and its shape fits. -/
theorem exists_unaryOperation (hissued : supply.Issued meshes) {op : Operator} {a : Expr α}
    {s : Shape} (ha : a.Shaped) (hs : op.unaryShape a.shape = .ok s)
    (hmeshes : ∀ f ∈ (Expr.operation op [a] s).functions, f.space.mesh ∈ meshes) {k : ValueKind}
    (hkind : (Expr.operation op [a] s).kind? = some k)
    (hregular : (Expr.operation op [a] s).Regular) (hfit : (Expr.operation op [a] s).SizesFit)
    {v : Value α} (hv : evaluate Rules.standard a = .ok v) :
    ∃ w, evaluate Rules.standard (.operation op [a] s) = .ok w := by
  obtain ⟨ks, hks, -, hkind⟩ := Expr.kind?_operation_eq_some.1 hkind
  have hvs : List.Forall₂ (fun e v => evaluate Rules.standard e = .ok v) [a] [v] := .cons hv .nil
  rw [kinds_of_evaluate hvs hks] at hkind
  rcases select_of_unaryShape (α := α) hs with
    ⟨φ, hφ, htensorial, -⟩ | ⟨kernel, hk, htensorial, hkernel⟩
  · rw [htensorial, if_neg Bool.false_ne_true] at hkind
    obtain ⟨V, hV, -⟩ := ofShared_eq_some.1 hkind
    obtain ⟨cs, hcs⟩ := exists_apply_unary (φ := φ) hV
    exact exists_pointwiseOperation hφ hvs hV hcs
  · rw [htensorial, if_pos rfl] at hkind
    have hshape : op.unaryShape v.shape = .ok s := by rwa [shape_of_evaluate ha hv]
    have hpos := Operator.unaryShape_positive hshape v.positive_shape
    have hfits := (Expr.eachOperation_operation.1 hfit).1 htensorial
    refine exists_tensorOperation hissued hmeshes hk hvs hkind hpos hfits ?_
    intro fs n hfs hn _
    obtain ⟨f, rfl, rfl⟩ := List.map_eq_singleton_iff.1 hfs.symm
    rcases standardTensor_atNode_unary hkernel hshape (hn f (by simp)) with
      hb | ⟨hinverts, b, hb, hsingular, -⟩
    · exact hb
    · have hvalue : a.valueAt Rules.standard (·.nodeValue? n) = some (.tensor b) :=
        valueAt_of_evaluate hv (by simp [Value.at?, hb])
      have hmeets := (Expr.eachOperation_operation.1 hregular).1 hinverts a (by simp) n b hvalue
      exact absurd hsingular hmeets

/-- An operation on two operands that have values has one itself, if its kind can be
inferred and its shape fits. -/
theorem exists_binaryOperation (hissued : supply.Issued meshes) {op : Operator} {a b : Expr α}
    {s : Shape} (ha : a.Shaped) (hb : b.Shaped) (hs : op.binaryShape a.shape b.shape = .ok s)
    (hmeshes : ∀ f ∈ (Expr.operation op [a, b] s).functions, f.space.mesh ∈ meshes)
    {k : ValueKind} (hkind : (Expr.operation op [a, b] s).kind? = some k)
    (hfit : (Expr.operation op [a, b] s).SizesFit) {v w : Value α}
    (hv : evaluate Rules.standard a = .ok v) (hw : evaluate Rules.standard b = .ok w) :
    ∃ u, evaluate Rules.standard (.operation op [a, b] s) = .ok u := by
  obtain ⟨ks, hks, -, hkind⟩ := Expr.kind?_operation_eq_some.1 hkind
  have hvs : List.Forall₂ (fun e v => evaluate Rules.standard e = .ok v) [a, b] [v, w] :=
    .cons hv (.cons hw .nil)
  rw [kinds_of_evaluate hvs hks] at hkind
  rcases select_of_binaryShape (α := α) hs with
    ⟨φ, hφ, htensorial, -⟩ | ⟨kernel, hk, htensorial, hkernel⟩
  · rw [htensorial, if_neg Bool.false_ne_true] at hkind
    obtain ⟨V, hV, -⟩ := ofShared_eq_some.1 hkind
    have hsize : ∀ f g, v = .function f → w = .function g →
        f.space.isCompatible g.space = true → f.coefficients.size = g.coefficients.size := by
      rintro f g rfl rfl hcompatible
      obtain ⟨f', hf', hmesh⟩ := exists_mesh_of_evaluate hv
      obtain ⟨g', hg', hmesh'⟩ := exists_mesh_of_evaluate hw
      have hf := hmeshes f' (Expr.mem_functions_operation.2 ⟨a, by simp, hf'⟩)
      have hg := hmeshes g' (Expr.mem_functions_operation.2 ⟨b, by simp, hg'⟩)
      exact hissued.size_eq (hmesh ▸ hf) (hmesh' ▸ hg) hcompatible
    obtain ⟨cs, hcs⟩ := exists_apply_binary (φ := φ) hV hsize
    exact exists_pointwiseOperation hφ hvs hV hcs
  · rw [htensorial, if_pos rfl] at hkind
    have hshape : op.binaryShape v.shape w.shape = .ok s := by
      rwa [shape_of_evaluate ha hv, shape_of_evaluate hb hw]
    have hpos := Operator.binaryShape_positive hshape v.positive_shape w.positive_shape
    have hfits := (Expr.eachOperation_operation.1 hfit).1 htensorial
    refine exists_tensorOperation hissued hmeshes hk hvs hkind hpos hfits ?_
    intro fs n hfs hn hrank
    obtain ⟨f, g, rfl, rfl, rfl⟩ := map_eq_pair hfs.symm
    exact standardTensor_atNode_binary hkernel hshape hrank (hn f (by simp)) (hn g (by simp))

/-- A shaped expression whose kind can be inferred has a value, if it meets no
singular matrix and its declared shapes fit. -/
theorem exists_evaluate (hissued : supply.Issued meshes) {e : Expr α} (he : e.Shaped)
    (hmeshes : ∀ f ∈ e.functions, f.space.mesh ∈ meshes) {k : ValueKind}
    (hkind : e.kind? = some k) (hregular : e.Regular) (hfit : e.SizesFit) :
    ∃ v, evaluate Rules.standard e = .ok v := by
  induction he generalizing k with
  | function f => exact ⟨_, rfl⟩
  | constant x => exact ⟨_, rfl⟩
  | @unary op a s ha hs ih =>
      obtain ⟨_, hks, -, -⟩ := Expr.kind?_operation_eq_some.1 hkind
      obtain ⟨k₁, rfl, hk₁⟩ := forall₂_singleton hks
      have hbelow : ∀ f ∈ a.functions, f.space.mesh ∈ meshes := fun f hf =>
        hmeshes f (Expr.mem_functions_operation.2 ⟨a, by simp, hf⟩)
      obtain ⟨v, hv⟩ := ih hbelow hk₁ (Expr.eachOperation_unary.1 hregular).2
        (Expr.eachOperation_unary.1 hfit).2
      exact exists_unaryOperation hissued ha hs hmeshes hkind hregular hfit hv
  | @binary op a b s ha hb hs iha ihb =>
      obtain ⟨_, hks, -, -⟩ := Expr.kind?_operation_eq_some.1 hkind
      obtain ⟨k₁, k₂, rfl, hk₁, hk₂⟩ := forall₂_pair hks
      have hbelow : ∀ e ∈ [a, b], ∀ f ∈ e.functions, f.space.mesh ∈ meshes := fun e he f hf =>
        hmeshes f (Expr.mem_functions_operation.2 ⟨e, he, hf⟩)
      obtain ⟨-, hra, hrb⟩ := Expr.eachOperation_binary.1 hregular
      obtain ⟨-, hfa, hfb⟩ := Expr.eachOperation_binary.1 hfit
      obtain ⟨v, hv⟩ := iha (hbelow a (by simp)) hk₁ hra hfa
      obtain ⟨w, hw⟩ := ihb (hbelow b (by simp)) hk₂ hrb hfb
      exact exists_binaryOperation hissued ha hb hs hmeshes hkind hfit hv hw
  | component ha hindex =>
      obtain ⟨_, -, hop, -⟩ := Expr.kind?_operation_eq_some.1 hkind
      exact absurd rfl hop

/-- Exact acceptance: over constructed meshes, an expression in which every operation
declares the shape that follows from its operands evaluates to a value of a kind if
and only if this kind is inferred, no inverse or cofactor matrix of a singular matrix
is taken at any node, and the declared shapes fit. -/
theorem evaluate_eq_ok_iff_kind? (hissued : supply.Issued meshes) {e : Expr α} (he : e.Shaped)
    (hmeshes : ∀ f ∈ e.functions, f.space.mesh ∈ meshes) (k : ValueKind) :
    (∃ v, evaluate Rules.standard e = .ok v ∧ v.kind = k) ↔
      e.kind? = some k ∧ e.Regular ∧ e.SizesFit := by
  constructor
  · rintro ⟨v, hv, rfl⟩
    exact ⟨kind_of_evaluate hv, regular_of_evaluate he hv,
      sizesFit_of_evaluate hissued hmeshes hv⟩
  · rintro ⟨hkind, hregular, hfit⟩
    obtain ⟨v, hv⟩ := exists_evaluate hissued he hmeshes hkind hregular hfit
    exact ⟨v, hv, Option.some.inj ((kind_of_evaluate hv).symm.trans hkind)⟩

end

/-! ## Inverses on a segment -/

/-- A function of matrices added to its inverse. -/
def inverseSum (u : NodalFunction α) : Expr α :=
  .operation .sum [.operation .inverse [.function u] (.matrix 2 2), .function u] (.matrix 2 2)

theorem mesh_inverseSum {u f : NodalFunction α} (hf : f ∈ (inverseSum u).functions) :
    f.space.mesh = u.space.mesh := by
  have hleaves : (inverseSum u).functions = [u, u] := rfl
  rw [hleaves] at hf
  obtain rfl : f = u := by simpa using hf
  rfl

theorem regular_inverseSum [Zero α] [One α] [Add α] [Sub α] [Mul α] [Div α] [NatCast α]
    [Elementary α] [LinearSolver α] {u : NodalFunction α} :
    (inverseSum u).Regular ↔ ∀ n a, u.nodeValue? n = some a → ¬ a.Singular := by
  constructor
  · intro h n a ha
    obtain ⟨-, hinverse, -⟩ := Expr.eachOperation_binary.1 h
    refine (Expr.eachOperation_unary.1 hinverse).1 rfl (.function u) (by simp) n a ?_
    rw [Expr.valueAt, ha]
    rfl
  · intro h
    have hinverse : (Expr.operation .inverse [.function u] (.matrix 2 2)).Regular := by
      refine Expr.eachOperation_unary.2 ⟨fun _ e he n a ha => ?_, .function u⟩
      obtain rfl := List.mem_singleton.1 he
      exact h n a (nodeValue?_of_valueAt rfl ha)
    exact Expr.eachOperation_binary.2
      ⟨fun h => absurd h Bool.false_ne_true, hinverse, .function u⟩

/-- Real matrices on a segment. Where none is singular the sum of a function and its inverse is
a function of the inferred kind, and with a singular matrix at the second node it has no value,
although its kind is inferred. -/
theorem evaluate_eq_ok_iff_kind?_segment :
    let u : NodalFunction ℝ := segmentFunction 0 1 #[1, 2, 3, 4, 2, 1, 0, 3] rfl
    let v : NodalFunction ℝ := segmentFunction 0 1 #[1, 2, 3, 4, 1, 2, 2, 4] rfl
    let k : ValueKind := .function (.tensor ⟨.lagrange, 1, .interval⟩ 2 2) ⟨0⟩
    (∃ x, evaluate Rules.standard (inverseSum u) = .ok x ∧ x.kind = k)
      ∧ (inverseSum v).kind? = some k
      ∧ ¬ ∃ x, evaluate Rules.standard (inverseSum v) = .ok x ∧ x.kind = k := by
  intro u v k
  have haccepted (entries : Array ℝ) (h : entries.size = 8) :=
    evaluate_eq_ok_iff_kind? (segment_issued 0 1) (e := inverseSum (segmentFunction 0 1 entries h))
      (.binary (.unary (.function _) rfl) (.function _) rfl)
      (fun f hf => List.mem_singleton.2 (mesh_inverseSum hf)) k
  have hsolver : LinearSolver.ExactAt ℝ 2 := LinearSolver.exactAt_two fun _ => isZero_real
  have hregular : (inverseSum u).Regular := by
    refine regular_inverseSum.2 fun n a ha => ?_
    have hn : n < 2 := (NodalFunction.nodeValue?_eq_some.1 ha).1
    obtain rfl | rfl : n = 0 ∨ n = 1 := by omega
    · obtain rfl : .matrix (⟨#v[1, 2, 3, 4]⟩ : DenseMatrix 2 2 ℝ) = a := Option.some.inj ha
      rw [hsolver.singular_matrix_iff, DenseMatrix.det_entries]
      norm_num
    · obtain rfl : .matrix (⟨#v[2, 1, 0, 3]⟩ : DenseMatrix 2 2 ℝ) = a := Option.some.inj ha
      rw [hsolver.singular_matrix_iff, DenseMatrix.det_entries]
      norm_num
  have hfits : (inverseSum u).SizesFit := by
    refine Expr.eachOperation_binary.2 ⟨fun h => absurd h Bool.false_ne_true,
      Expr.eachOperation_unary.2 ⟨fun _ f hf => ?_, .function u⟩, .function u⟩
    obtain rfl : f = u := List.mem_singleton.1 hf
    exact ⟨rfl, show 2 * 4 < Size.limit by decide, by decide⟩
  have hsingular : ¬ (inverseSum v).Regular := by
    intro h
    refine regular_inverseSum.1 h 1 (.matrix (⟨#v[1, 2, 2, 4]⟩ : DenseMatrix 2 2 ℝ)) rfl ?_
    rw [hsolver.singular_matrix_iff, DenseMatrix.det_entries]
    norm_num
  exact ⟨(haccepted _ _).2 ⟨rfl, hregular, hfits⟩, rfl,
    fun h => hsingular ((haccepted _ _).1 h).2.1⟩

/-! ## Products of vectors on an empty mesh -/

/-- Vectors of 2²⁹ components at no node at all. -/
def emptyVectors : FunctionSpace α where
  mesh := emptyMesh
  whole := .vector ⟨.lagrange, 1, .interval⟩ (2 ^ 29)
  component := none
  placement := .vertices
  cell_eq := rfl
  placement_eq := rfl
  counted := rfl
  components_pos := by decide
  components_le := by decide
  dim_lt := show 0 * 2 ^ 29 < Size.limit by decide
  component_lt := by simp

/-- The outer product of vectors with themselves, where there are no nodes: its kind is
inferred, and its components are counted by a size, at one node and at all nodes, but there is
no table of as many sub-spaces. -/
theorem outer_of_emptyVectors :
    let u : NodalFunction Float := ⟨emptyVectors, #[], none, rfl, rfl⟩
    let s : Shape := .matrix (2 ^ 29) (2 ^ 29)
    let e : Expr Float := .operation .outer [.function u, .function u] s
    Expr.binary .outer (.function u) (.function u) = .ok e
      ∧ e.kind? = some (.function (.tensor ⟨.lagrange, 1, .interval⟩ (2 ^ 29) (2 ^ 29)) ⟨0⟩)
      ∧ e.Regular
      ∧ s.componentCount? = .ok (2 ^ 58) ∧ u.space.nodeCount * 2 ^ 58 < Size.limit
      ∧ evaluate Rules.standard e = .error (.fault .capacity) := by
  intro u s e
  have hregular : e.Regular := Expr.eachOperation_binary.2
    ⟨fun h => absurd h Bool.false_ne_true, .function u, .function u⟩
  have hcounted : s.componentCount? = .ok (2 ^ 58) := rfl
  have hlarge : s.TooLarge u.space.nodeCount .capacity :=
    .table (Shape.componentCount?_eq_ok.1 hcounted).1 (by decide) (by decide)
  exact ⟨rfl, rfl, hregular, hcounted, by decide,
    evaluate_of_tooLarge_of_agree [u] rfl (by simp) (by simp) (by decide) hlarge⟩

end NodalAlgebra
