import Mathlib.Data.List.Basic
import NodalAlgebra.NodalFunction
import NodalAlgebra.Space.Lemmas

/-!
# Blocks of coefficients

In a whole space with `k` components the coefficients of node `n` are the block of
length `k` from place `n * k` on. A table that is put together from blocks of one
length has them back (`flatten_block`) and is known by them (`ext_block`). The
value of a function at a node is read from the node's block, and there is one at
every node (`NodalFunction.exists_nodeValue?`).
-/

namespace NodalAlgebra

variable {α : Type}

/-! ## Tables of blocks -/

theorem flatten_block {k : Nat} {blocks : List (List α)} (h : ∀ b ∈ blocks, b.length = k) {n : Nat}
    (hn : n < blocks.length) : (blocks.flatten.drop (n * k)).take k = blocks[n] := by
  induction blocks generalizing n with
  | nil => simp at hn
  | cons b blocks ih =>
      have hb : b.length = k := h b (by simp)
      cases n with
      | zero => simp [← hb]
      | succ n =>
          -- past the first block, block `n + 1` is block `n` of the rest
          have hplace : (n + 1) * k = b.length + n * k := by
            rw [Nat.succ_mul, hb, Nat.add_comm]
          rw [List.flatten_cons, hplace, List.drop_append, List.drop_of_length_le (by omega),
            List.nil_append, Nat.add_sub_cancel_left]
          exact ih (fun c hc => h c (by simp [hc])) (by simpa using hn)

/-- An entry of a table that is put together from blocks of one length is found in its
block. -/
theorem getElem?_flatten_block {k : Nat} {blocks : List (List α)} (h : ∀ b ∈ blocks, b.length = k)
    {i : Nat} (hi : i < blocks.length * k) :
    blocks.flatten[i]? = blocks[i / k]? >>= fun b => b[i % k]? := by
  have hk : 0 < k := Nat.pos_of_ne_zero fun hk => by simp [hk] at hi
  have hdiv : i / k < blocks.length := (Nat.div_lt_iff_lt_mul hk).2 hi
  have hplace := congrArg (·[i % k]?) (flatten_block h hdiv)
  simp only [List.getElem?_take, if_pos (Nat.mod_lt i hk), List.getElem?_drop, Nat.div_add_mod']
    at hplace
  rw [hplace, List.getElem?_eq_getElem hdiv]
  rfl

theorem length_flatten_block {k : Nat} {blocks : List (List α)} (h : ∀ b ∈ blocks, b.length = k) :
    blocks.flatten.length = blocks.length * k := by
  induction blocks with
  | nil => simp
  | cons b blocks ih =>
      rw [List.flatten_cons, List.length_append, h b (by simp), ih fun c hc => h c (by simp [hc]),
        List.length_cons, Nat.succ_mul, Nat.add_comm]

/-- Tables of `n` blocks are equal if their blocks are. -/
theorem ext_block {k n : Nat} {xs ys : List α} (hxs : xs.length = n * k) (hys : ys.length = n * k)
    (h : ∀ i < n, (xs.drop (i * k)).take k = (ys.drop (i * k)).take k) : xs = ys := by
  apply List.ext_getElem?
  intro j
  by_cases hj : j < n * k
  · -- entry `j` is entry `j % k` of block `j / k`
    have hk : 0 < k := Nat.pos_of_ne_zero fun hk => by simp [hk] at hj
    have hmod : j % k < k := Nat.mod_lt j hk
    have hdiv : j / k < n := Nat.div_lt_of_lt_mul (by rwa [Nat.mul_comm] at hj)
    have hblock := congrArg (·[j % k]?) (h (j / k) hdiv)
    simpa [List.getElem?_take, hmod, List.getElem?_drop, Nat.div_add_mod'] using hblock
  · rw [List.getElem?_eq_none (by omega), List.getElem?_eq_none (by omega)]

/-! ## Functions -/

namespace NodalFunction

/-- The coefficients of a node. -/
def block (f : NodalFunction α) (n : Nat) : List α :=
  (f.coefficients.toList.drop (n * f.space.stride)).take f.space.stride

theorem length_coefficients (f : NodalFunction α) :
    f.coefficients.toList.length = f.space.nodeCount * f.space.stride := by
  rw [Array.length_toList, f.size_eq, FunctionSpace.dim]

theorem length_block (f : NodalFunction α) {n : Nat} (hn : n < f.space.nodeCount) :
    (f.block n).length = f.space.stride := by
  have hle : (n + 1) * f.space.stride ≤ f.space.nodeCount * f.space.stride :=
    Nat.mul_le_mul_right _ hn
  rw [Nat.succ_mul] at hle
  rw [block, List.length_take, List.length_drop, length_coefficients]
  omega

/-- The place in the table of coefficients of a node's block. -/
theorem extract_eq_block (f : NodalFunction α) (n : Nat) :
    f.coefficients.extract (n * f.space.stride) (n * f.space.stride + f.space.stride)
      = (f.block n).toArray := by
  rw [← Array.toList_inj, Array.toList_extract, List.extract_eq_take_drop, block,
    Nat.add_sub_cancel_left]

/-- The value at a node is read from the node's block. -/
theorem nodeValue?_eq_read? {f : NodalFunction α} {n : Nat} (hn : n < f.space.nodeCount) :
    f.nodeValue? n = TensorValue.read? f.valueShape.dims (f.block n).toArray := by
  rw [← extract_eq_block, nodeValue?, if_pos hn]

/-- The value at a node has the node's block as its components. -/
theorem nodeValue?_eq_some_iff_block {f : NodalFunction α} {n : Nat} {a : TensorValue α} :
    f.nodeValue? n = some a ↔
      n < f.space.nodeCount ∧ a.shape = f.valueShape ∧ a.components.toList = f.block n := by
  rw [nodeValue?_eq_some, extract_eq_block, ← Array.toList_inj]

end NodalFunction

namespace FunctionSpace

theorem element_of_whole {V : FunctionSpace α} (h : V.component = none) : V.element = V.whole := by
  simp [element, h]

@[simp] theorem scalarElement_element (V : FunctionSpace α) :
    V.element.scalarElement = V.whole.scalarElement := by
  unfold element
  cases V.component <;> rfl

theorem componentCount_element {V : FunctionSpace α} (h : V.component = none) :
    V.element.componentCount = V.stride := by
  rw [element_of_whole h, stride]

end FunctionSpace

namespace FiniteElement

theorem rank_valueShape_le (e : FiniteElement) : e.valueShape.rank ≤ 2 := by
  cases e <;> simp [valueShape, Shape.rank, Shape.scalar, Shape.vector, Shape.matrix]

theorem valueShape_eq_scalar {e : FiniteElement} :
    e.valueShape = .scalar ↔ e.isScalar = true := by
  cases e <;> simp [valueShape, isScalar, Shape.scalar, Shape.vector, Shape.matrix]

theorem componentCount_valueShape (e : FiniteElement) :
    e.valueShape.componentCount = e.componentCount := by
  cases e <;> simp [valueShape, componentCount, Shape.componentCount, Shape.scalar, Shape.vector,
    Shape.matrix]

end FiniteElement

theorem NodalFunction.valueShape_eq_whole (f : NodalFunction α) :
    f.valueShape = f.space.whole.valueShape := by
  rw [valueShape, FunctionSpace.element_of_whole f.whole]

theorem NodalFunction.stride_eq_componentCount (f : NodalFunction α) :
    f.space.stride = f.valueShape.componentCount := by
  rw [f.valueShape_eq_whole, FiniteElement.componentCount_valueShape, FunctionSpace.stride]

theorem TensorValue.rank_shape_le (a : TensorValue α) : a.shape.rank ≤ 2 := by
  cases a <;> simp [shape, Shape.rank, Shape.scalar, Shape.vector, Shape.matrix]

/-- A value of rank at most two is read from as many components as it has. -/
theorem TensorValue.exists_read? {s : Shape} {values : Array α} (hrank : s.rank ≤ 2)
    (hsize : values.size = s.componentCount) : ∃ a, TensorValue.read? s.dims values = some a := by
  obtain ⟨dims⟩ := s
  match dims, hrank with
  | [], _ => simp_all [read?, Shape.componentCount]
  | [_], _ => simp_all [read?, Shape.componentCount]
  | [_, _], _ => simp_all [read?, Shape.componentCount]

/-- A function has a value at each of its nodes. -/
theorem NodalFunction.exists_nodeValue? (f : NodalFunction α) {n : Nat}
    (hn : n < f.space.nodeCount) : ∃ a, f.nodeValue? n = some a := by
  have hshape : f.valueShape = f.space.whole.valueShape := f.valueShape_eq_whole
  have hsize : (f.block n).toArray.size = f.valueShape.componentCount := by
    rw [hshape, FiniteElement.componentCount_valueShape, List.size_toArray, f.length_block hn]
    rfl
  obtain ⟨a, ha⟩ := TensorValue.exists_read? (hshape ▸ FiniteElement.rank_valueShape_le _) hsize
  obtain ⟨hs, hc⟩ := TensorValue.read?_eq_some.1 ha
  exact ⟨a, nodeValue?_eq_some_iff_block.2 ⟨hn, hs, by rw [hc]⟩⟩

/-- Functions of one shape with the same values at the same nodes have the same
coefficients. -/
theorem NodalFunction.coefficients_eq_of_values {f g : NodalFunction α}
    (hnodes : f.space.nodeCount = g.space.nodeCount) (hshape : f.valueShape = g.valueShape)
    (h : ∀ n < f.space.nodeCount, f.nodeValue? n = g.nodeValue? n) :
    f.coefficients = g.coefficients := by
  have hstride : f.space.stride = g.space.stride := by
    rw [f.stride_eq_componentCount, hshape, g.stride_eq_componentCount]
  rw [← Array.toList_inj]
  refine ext_block f.length_coefficients ?_ fun n hn => ?_
  · rw [g.length_coefficients, hnodes, hstride]
  · obtain ⟨a, ha⟩ := f.exists_nodeValue? hn
    have hf := (nodeValue?_eq_some_iff_block.1 ha).2.2
    rw [h n hn] at ha
    have hg := (nodeValue?_eq_some_iff_block.1 ha).2.2
    show f.block n = _
    rw [← hf, hg, hstride, block]

/-! ## Functions made of node values -/

namespace NodalFunction

/-- Components for every node make the function that has them as its blocks. -/
theorem ofNodeValues_eq_ok {V : FunctionSpace α} {values : List (Array α)}
    {f : NodalFunction α} (hlength : values.length = V.nodeCount) :
    ofNodeValues V values = .ok f ↔
      f.space = V ∧ f.mark = none
        ∧ ∀ n (hn : n < values.length), f.block n = values[n].toList := by
  have htable : values.toArray.flatten.toList = (values.map Array.toList).flatten := by
    simp
  unfold ofNodeValues
  constructor
  · intro h
    split at h
    · rename_i hsizes
      obtain ⟨rfl, hcoefficients, hmark⟩ :=
        ofCoefficients_eq_ok.1 (Failure.ofRefusal_eq_ok.1 h)
      have hsize : ∀ b ∈ values.map Array.toList, b.length = f.space.stride := by
        intro b hb
        obtain ⟨v, hv, rfl⟩ := List.mem_map.1 hb
        have := List.all_eq_true.1 hsizes v hv
        rw [FunctionSpace.componentCount_element f.whole] at this
        simpa using this
      refine ⟨rfl, hmark, fun n hn => ?_⟩
      rw [block, hcoefficients, htable, flatten_block hsize (by simpa using hn), List.getElem_map]
    · cases h
  · rintro ⟨rfl, hmark, hblocks⟩
    have hsize : ∀ v ∈ values, v.size = f.space.stride := by
      intro v hv
      obtain ⟨n, hn, rfl⟩ := List.mem_iff_getElem.1 hv
      rw [← Array.length_toList, ← hblocks n hn, f.length_block (hlength ▸ hn)]
    have hall : (values.all fun v => v.size == f.space.element.componentCount) = true := by
      rw [List.all_eq_true, FunctionSpace.componentCount_element f.whole]
      exact fun v hv => by simpa using hsize v hv
    have hlists : ∀ b ∈ values.map Array.toList, b.length = f.space.stride := by
      intro b hb
      obtain ⟨v, hv, rfl⟩ := List.mem_map.1 hb
      exact hsize v hv
    have hcoefficients : f.coefficients = values.toArray.flatten := by
      rw [← Array.toList_inj, htable]
      refine ext_block f.length_coefficients ?_ fun n hn => ?_
      · rw [length_flatten_block hlists, List.length_map, hlength]
      · rw [flatten_block hlists (by simpa [hlength] using hn), List.getElem_map]
        exact hblocks n (hlength ▸ hn)
    rw [if_pos hall, Failure.ofRefusal_eq_ok, ofCoefficients_eq_ok]
    exact ⟨rfl, hcoefficients, hmark⟩

/-- Every node of a whole space needs the components of one value, no more. -/
theorem exists_ofNodeValues {V : FunctionSpace α} (hwhole : V.component = none)
    (values : List (Array α)) (hlength : values.length = V.nodeCount)
    (hsize : ∀ v ∈ values, v.size = V.stride) : ∃ f, ofNodeValues V values = .ok f := by
  have hall : (values.all fun v => v.size == V.element.componentCount) = true := by
    rw [List.all_eq_true, FunctionSpace.componentCount_element hwhole]
    exact fun v hv => by simpa using hsize v hv
  have hlists : ∀ b ∈ values.map Array.toList, b.length = V.stride := by
    intro b hb
    obtain ⟨v, hv, rfl⟩ := List.mem_map.1 hb
    exact hsize v hv
  have hdim : values.toArray.flatten.size = V.dim := by
    have htable : values.toArray.flatten.toList = (values.map Array.toList).flatten := by simp
    rw [← Array.length_toList, htable, length_flatten_block hlists, List.length_map, hlength]
    rfl
  exact ⟨⟨V, values.toArray.flatten, none, hwhole, hdim⟩, by
    rw [ofNodeValues, if_pos hall, Failure.ofRefusal_eq_ok, ofCoefficients_eq_ok]
    exact ⟨rfl, rfl, rfl⟩⟩

end NodalFunction

end NodalAlgebra
