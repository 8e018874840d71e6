import NodalAlgebra.Proofs.Difference
import NodalAlgebra.Proofs.EditedRules
import NodalAlgebra.Proofs.PointwiseNodes

/-!
# Numbers among functions

A pointwise kernel applies to as many operands as it takes if there is an array among them
and all arrays have one length (`PointwiseKernel.exists_apply_iff`). Each entry of the
outcome is what the kernel makes of the entries of the operands at the same place, a number
having itself as its entry everywhere (`PointwiseKernel.getElem?_apply`). So a number stands
for the constant function that repeats it, on either side of a function
(`evaluate_broadcast`).
-/

namespace NodalAlgebra

variable {α : Type}

/-! ## Entry by entry -/

/-- What an operand has at a place: the entry of an array there, or the number. -/
def PointwiseOperand.entry? (i : Nat) : PointwiseOperand α → Option α
  | .array a => a[i]?
  | .number x => some x

namespace PointwiseKernel

/-- A kernel applied to scalars, which have to be as many as it takes. -/
def onScalars? : PointwiseKernel α → List α → Option α
  | .unary φ, [x] => some (φ x)
  | .binary φ, [x, y] => some (φ x y)
  | _, _ => none

variable {kernel : PointwiseKernel α} {args : List (PointwiseOperand α)} {cs : Array α}

/-- A kernel applies to operands in the right number, if one of them is an array and all
arrays have one length. -/
theorem exists_apply_iff :
    (∃ cs, kernel.apply args = .ok cs) ↔
      args.length = kernel.arity ∧ (∃ a, .array a ∈ args)
        ∧ ∀ a b, .array a ∈ args → .array b ∈ args → a.size = b.size := by
  constructor
  · intro ⟨cs, h⟩
    refine ⟨?_, ?_, fun a b ha hb => ?_⟩
    · rcases apply_eq_ok.1 h with ⟨_, _, rfl, rfl, -⟩ | ⟨_, _, _, rfl, rfl, -⟩
        | ⟨_, _, _, rfl, rfl, -⟩ | ⟨_, _, _, rfl, rfl, -⟩ <;> rfl
    · rcases apply_eq_ok.1 h with ⟨_, a, -, rfl, -⟩ | ⟨_, a, _, -, rfl, -⟩
        | ⟨_, a, _, -, rfl, -⟩ | ⟨_, _, a, -, rfl, -⟩ <;> exact ⟨a, by simp⟩
    · exact (size_of_apply h ha).symm.trans (size_of_apply h hb)
  · intro ⟨hlength, ⟨a, ha⟩, hsize⟩
    cases kernel with
    | unary φ =>
        obtain ⟨v, rfl⟩ := List.length_eq_one_iff.1 hlength
        obtain rfl : .array a = v := List.mem_singleton.1 ha
        exact ⟨a.map φ, rfl⟩
    | binary φ =>
        obtain ⟨v, w, rfl⟩ := List.length_eq_two.1 hlength
        cases v with
        | array a =>
            cases w with
            | array b => exact ⟨Array.zipWith φ a b, if_pos (hsize a b (by simp) (by simp))⟩
            | number y => exact ⟨a.map fun x => φ x y, rfl⟩
        | number x =>
            cases w with
            | array b => exact ⟨b.map fun y => φ x y, rfl⟩
            | number y => simp at ha

/-- Every entry of the outcome is what the kernel makes of the entries of the operands. -/
theorem getElem?_apply (h : kernel.apply args = .ok cs) (i : Nat) :
    cs[i]? = (args.mapM (PointwiseOperand.entry? i)).bind kernel.onScalars? := by
  rcases apply_eq_ok.1 h with ⟨φ, a, rfl, rfl, rfl⟩ | ⟨φ, a, b, rfl, rfl, hsize, rfl⟩
    | ⟨φ, a, y, rfl, rfl, rfl⟩ | ⟨φ, x, b, rfl, rfl, rfl⟩
  · cases ha : a[i]? <;> simp [PointwiseOperand.entry?, onScalars?, ha]
  · cases ha : a[i]? <;> cases hb : b[i]? <;>
      simp [PointwiseOperand.entry?, onScalars?, ha, hb, Array.getElem?_zipWith]
  · cases ha : a[i]? <;> simp [PointwiseOperand.entry?, onScalars?, ha]
  · cases hb : b[i]? <;> simp [PointwiseOperand.entry?, onScalars?, hb]

/-- Operands with the same entries, as far as the arrays reach, have one outcome. -/
theorem apply_congr {args' : List (PointwiseOperand α)} {cs' : Array α}
    (h : kernel.apply args = .ok cs) (h' : kernel.apply args' = .ok cs')
    (hsize : cs'.size = cs.size)
    (hentries : ∀ i < cs.size,
      args'.mapM (PointwiseOperand.entry? i) = args.mapM (PointwiseOperand.entry? i)) :
    cs' = cs := by
  apply Array.ext_getElem?
  intro i
  by_cases hi : i < cs.size
  · rw [getElem?_apply h' i, getElem?_apply h i, hentries i hi]
  · rw [Array.getElem?_eq_none (by omega), Array.getElem?_eq_none (by omega)]

/-- A number behind an array stands for the array that repeats it. -/
theorem apply_number_right (φ : α → α → α) (a : Array α) (c : α) :
    (binary φ).apply [.array a, .array (.replicate a.size c)]
      = (binary φ).apply [.array a, .number c] := by
  have hnumber : (binary φ).apply [.array a, .number c] = .ok (a.map fun x => φ x c) := rfl
  have harray : (binary φ).apply [.array a, .array (.replicate a.size c)]
      = .ok (Array.zipWith φ a (.replicate a.size c)) := if_pos Array.size_replicate.symm
  rw [hnumber, harray, apply_congr hnumber harray (by simp)]
  intro i hi
  rw [Array.size_map] at hi
  simp [PointwiseOperand.entry?, hi]

/-- And so does one in front of an array. -/
theorem apply_number_left (φ : α → α → α) (a : Array α) (c : α) :
    (binary φ).apply [.array (.replicate a.size c), .array a]
      = (binary φ).apply [.number c, .array a] := by
  have hnumber : (binary φ).apply [.number c, .array a] = .ok (a.map fun y => φ c y) := rfl
  have harray : (binary φ).apply [.array (.replicate a.size c), .array a]
      = .ok (Array.zipWith φ (.replicate a.size c) a) := if_pos Array.size_replicate
  rw [hnumber, harray, apply_congr hnumber harray (by simp)]
  intro i hi
  rw [Array.size_map] at hi
  simp [PointwiseOperand.entry?, hi]

end PointwiseKernel

/-! ## Constant functions -/

/-- The function on a whole space that has one number as all its coefficients. -/
def NodalFunction.filled (V : FunctionSpace α) (hwhole : V.component = none) (c : α) :
    NodalFunction α :=
  ⟨V, .replicate V.dim c, none, hwhole, Array.size_replicate⟩

theorem NodalFunction.coefficients_filled (f : NodalFunction α) (c : α) :
    (filled f.space f.whole c).coefficients = .replicate f.coefficients.size c := by
  rw [f.size_eq]
  rfl

/-- It is the constant function whose value has this number as all its components. -/
theorem NodalFunction.constant_replicate {V : FunctionSpace α} (hwhole : V.component = none)
    (c : α) : constant V (.replicate V.stride c) = .ok (filled V hwhole c) := by
  have hlength : (List.replicate V.nodeCount (Array.replicate V.stride c)).length = V.nodeCount :=
    List.length_replicate
  have hsize : (Array.replicate V.stride c).size = V.element.componentCount := by
    rw [Array.size_replicate, FunctionSpace.componentCount_element hwhole]
  rw [constant, if_pos hsize, ofNodeValues_eq_ok hlength]
  refine ⟨rfl, rfl, fun n hn => ?_⟩
  rw [List.getElem_replicate, Array.toList_replicate]
  show ((Array.replicate V.dim c).toList.drop (n * V.stride)).take V.stride = _
  have hle : (n + 1) * V.stride ≤ V.dim := Nat.mul_le_mul_right _ (hlength ▸ hn)
  rw [Nat.succ_mul] at hle
  rw [Array.toList_replicate, List.drop_replicate, List.take_replicate, Nat.min_eq_left (by omega)]

/-! ## Operations -/

/-- An operator with a binary pointwise kernel is evaluated by it on two operands. -/
theorem Rules.select_of_binary {R : Rules α} {op : Operator} {φ : α → α → α}
    (h : R.pointwise op = some (.binary φ)) : R.select op 2 = .ok (.pointwise (.binary φ)) := by
  obtain ⟨hone, harity⟩ :=
    KernelTables.forall_not_defect.1 (KernelTables.defect?_eq_none.1 (R.consistent op))
  have htensor : R.tensor op = none := by
    rcases hone with hnone | htensor
    · rw [h] at hnone
      cases hnone
    · exact htensor
  exact select_eq_ok.2 ⟨fun k hk => (harity _ k h hk).symm, .inr ⟨htensor, _, h, rfl⟩⟩

theorem sharedSpace_pair {f g : NodalFunction α} (h : g.space = f.space) :
    sharedSpace [.function f, .function g] = .ok f.space := by
  refine sharedSpace_eq_ok.2 ⟨f, [g], rfl, rfl, fun W hW => ?_⟩
  rw [List.mem_singleton.1 hW, h]
  exact (FunctionSpace.isCompatible_iff f.whole f.whole).2 ⟨rfl, rfl⟩

section

variable [Zero α] {R : Rules α} {op : Operator} {φ : α → α → α}

/-- Two operands with values are combined by the kernel in their space. -/
theorem evaluate_of_binary (hkernel : R.pointwise op = some (.binary φ)) {e e' : Expr α}
    {v w : Value α} (he : evaluate R e = .ok v) (he' : evaluate R e' = .ok w) (s : Shape)
    {g : NodalFunction α} (hspace : sharedSpace [v, w] = .ok g.space)
    (happly : (PointwiseKernel.binary φ).apply [v.operand, w.operand] = .ok g.coefficients)
    (hmark : g.mark = none) :
    evaluate R (.operation op [e, e'] s) = .ok (.function g) := by
  have hg : applyPointwise op (.binary φ) [v, w] = .ok g :=
    applyPointwise_eq_ok.2 ⟨hspace, happly, hmark⟩
  exact evaluate_operation_eq_ok.2 ⟨_, [v, w], g, Rules.select_of_binary hkernel,
    .cons he (.cons he' .nil), Failure.ofRefusal_eq_ok.2 hg, rfl⟩

/-- A number behind a function has the effect of the constant function. -/
theorem evaluate_number_right (hkernel : R.pointwise op = some (.binary φ)) {e : Expr α}
    {f : NodalFunction α} (he : evaluate R e = .ok (.function f)) (c : α) (s s' : Shape) :
    ∃ g, evaluate R (.operation op [e, .constant c] s) = .ok (.function g)
      ∧ evaluate R (.operation op [e, .function (.filled f.space f.whole c)] s') = .ok (.function g)
      ∧ g.space = f.space ∧ g.coefficients = f.coefficients.map fun x => φ x c := by
  have hnumber : evaluate R (.constant c) = .ok (.number c) := rfl
  have hfilled : evaluate R (.function (.filled f.space f.whole c))
      = .ok (.function (.filled f.space f.whole c)) := rfl
  have happly := PointwiseKernel.apply_number_right φ f.coefficients c
  rw [← NodalFunction.coefficients_filled] at happly
  refine ⟨⟨f.space, f.coefficients.map fun x => φ x c, none, f.whole, ?_⟩, ?_, ?_, rfl, rfl⟩
  · rw [Array.size_map, f.size_eq]
  · exact evaluate_of_binary hkernel he hnumber s rfl rfl rfl
  · exact evaluate_of_binary hkernel he hfilled s' (sharedSpace_pair rfl) happly rfl

/-- And so has one in front of it. -/
theorem evaluate_number_left (hkernel : R.pointwise op = some (.binary φ)) {e : Expr α}
    {f : NodalFunction α} (he : evaluate R e = .ok (.function f)) (c : α) (s s' : Shape) :
    ∃ g, evaluate R (.operation op [.constant c, e] s) = .ok (.function g)
      ∧ evaluate R (.operation op [.function (.filled f.space f.whole c), e] s') = .ok (.function g)
      ∧ g.space = f.space ∧ g.coefficients = f.coefficients.map fun x => φ c x := by
  have hnumber : evaluate R (.constant c) = .ok (.number c) := rfl
  have hfilled : evaluate R (.function (.filled f.space f.whole c))
      = .ok (.function (.filled f.space f.whole c)) := rfl
  have happly := PointwiseKernel.apply_number_left φ f.coefficients c
  rw [← NodalFunction.coefficients_filled] at happly
  refine ⟨⟨f.space, f.coefficients.map fun x => φ c x, none, f.whole, ?_⟩, ?_, ?_, rfl, rfl⟩
  · rw [Array.size_map, f.size_eq]
  · exact evaluate_of_binary hkernel hnumber he s rfl rfl rfl
  · exact evaluate_of_binary hkernel hfilled he s' (sharedSpace_pair rfl) happly rfl

/-- A number beside a function, on either side of it, has the effect of the constant
function in the function's space that has the number as each component: the operation has a
value in that space, and the two values have the same coefficients. A pointwise kernel, with
one or with two operands, can be applied exactly to operands in the right number with an
array among them and arrays of one length only; every entry of the outcome is what the
kernel makes of the operands' entries at its place, a number being its own entry at each. -/
theorem evaluate_broadcast (hkernel : R.pointwise op = some (.binary φ)) {e : Expr α}
    {f : NodalFunction α} (he : evaluate R e = .ok (.function f)) (c : α) (s s' : Shape) :
    (∃ h, NodalFunction.constant f.space (.replicate f.valueShape.componentCount c) = .ok h
      ∧ (∃ g, evaluate R (.operation op [e, .constant c] s) = .ok (.function g)
        ∧ evaluate R (.operation op [e, .function h] s') = .ok (.function g)
        ∧ g.space = f.space ∧ g.coefficients = f.coefficients.map fun x => φ x c)
      ∧ ∃ g, evaluate R (.operation op [.constant c, e] s) = .ok (.function g)
        ∧ evaluate R (.operation op [.function h, e] s') = .ok (.function g)
        ∧ g.space = f.space ∧ g.coefficients = f.coefficients.map fun x => φ c x)
    ∧ ∀ (kernel : PointwiseKernel α) (args : List (PointwiseOperand α)),
      ((∃ cs, kernel.apply args = .ok cs) ↔
        args.length = kernel.arity ∧ (∃ a, .array a ∈ args)
          ∧ ∀ a b, .array a ∈ args → .array b ∈ args → a.size = b.size)
      ∧ ∀ cs, kernel.apply args = .ok cs →
        (∀ a, .array a ∈ args → cs.size = a.size)
          ∧ ∀ i, cs[i]? = (args.mapM (PointwiseOperand.entry? i)).bind kernel.onScalars? := by
  constructor
  · have hconstant := NodalFunction.constant_replicate f.whole c
    rw [f.stride_eq_componentCount] at hconstant
    exact ⟨_, hconstant, evaluate_number_right hkernel he c s s',
      evaluate_number_left hkernel he c s s'⟩
  · intro kernel args
    refine ⟨PointwiseKernel.exists_apply_iff, fun cs hcs => ⟨fun a ha => ?_, fun i => ?_⟩⟩
    · exact PointwiseKernel.size_of_apply hcs ha
    · exact PointwiseKernel.getElem?_apply hcs i

end

/-- Quotients with the number 24 on a segment, which differ by the side it stands on. -/
theorem evaluate_broadcast_segment :
    let R : Rules Int :=
      { pointwise := fun op => if op = .division then some (.binary (· / ·)) else none
        tensor := fun _ => none
        consistent := fun op => by cases op <;> rfl }
    let u : Expr Int := .function (segmentLine 0 1 48 12)
    ∃ h g g', NodalFunction.constant (segmentNumbers 0 1) #[24] = .ok h
      ∧ evaluate R (.operation .division [u, .function h] .scalar) = .ok (.function g)
      ∧ g.coefficients = #[2, 0]
      ∧ evaluate R (.operation .division [.function h, u] .scalar) = .ok (.function g')
      ∧ g'.coefficients = #[0, 2] := by
  intro R u
  have hkernel : R.pointwise .division = some (.binary (· / ·)) := rfl
  have hu : evaluate R u = .ok (.function (segmentLine 0 1 48 12)) := rfl
  obtain ⟨⟨h, hh, ⟨g, -, hg, -, hcs⟩, g', -, hg', -, hcs'⟩, -⟩ :=
    evaluate_broadcast hkernel hu 24 .scalar .scalar
  refine ⟨h, g, g', hh, hg, ?_, hg', ?_⟩
  · rw [hcs]
    simp [segmentLine]
  · rw [hcs']
    simp [segmentLine]

end NodalAlgebra
