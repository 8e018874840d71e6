import NodalAlgebra.Proofs.NodeRows

/-!
# Two readers of a node

A value at a node can be read by walking the lists of degrees of freedom of the sub-spaces,
or through the node map of the space, which is made once. The lists have at a node what the
map has in its row (`FunctionSpace.forall₂_row`), so both read the same coefficients, and
the value they make of them is that of the function at the node
(`NodalFunction.readers_agree`).
-/

namespace NodalAlgebra

variable {α : Type}

namespace FunctionSpace

/-- The lists of degrees of freedom with one entry for each node: those of the sub-spaces, or
that of the space where there are none. -/
def dofLists (V : FunctionSpace α) : List (List Nat) :=
  if V.subCount = 0 then [V.dofs] else V.subSpaces.map dofs

/-- The lists have at a node the degrees of freedom of its row. -/
theorem forall₂_row (V : FunctionSpace α) {n : Nat} (hn : n < V.nodeCount) :
    List.Forall₂ (fun dofs i => NodeMap.dofAt dofs.toArray n = .ok i) V.dofLists (V.row n) := by
  unfold dofLists
  split
  · rename_i hsubs
    have hrow : V.row n = [V.dofOfNode n] := by rw [row, width, hsubs]; rfl
    rw [hrow]
    exact .cons (NodeMap.dofAt_of_dofs (if_pos hsubs) hn) .nil
  · rename_i hsubs
    obtain ⟨hwhole, hcount⟩ := subCount_eq_stride hsubs
    have hrow : V.row n = V.subSpaces.map fun W => W.dofOfNode n := by
      rw [NodeMap.row_of_subSpaces hcount, row_of_whole hwhole]
    rw [hrow, List.forall₂_map_left_iff, List.forall₂_map_right_iff, List.forall₂_same]
    exact fun W hW => NodeMap.dofAt_of_dofs (dofs_of_mem_subSpaces hW) hn

end FunctionSpace

namespace NodalFunction

/-- The coefficients of a node, found through the lists of degrees of freedom. -/
def lookUp (f : NodalFunction α) (node : Nat) : Except Fault (List α) :=
  f.space.dofLists.mapM fun dofs => do
    NodeMap.readAt f.coefficients (← NodeMap.dofAt dofs.toArray node)

/-- The value at a node, read through the lists of degrees of freedom. The nodes are counted
from these lists as well. -/
def valueByDofs? (f : NodalFunction α) (node : Nat) : Except Fault (Option (TensorValue α)) := do
  if node < f.space.nodesByDofs then
    let values ← f.lookUp node
    TensorValue.ofRowMajor? f.valueShape values.toArray
  else return none

variable {f : NodalFunction α} {n : Nat}

theorem lookUp_eq (hn : n < f.space.nodeCount) :
    f.lookUp n = (f.space.row n).mapM (NodeMap.readAt f.coefficients) :=
  mapM_congr ((f.space.forall₂_row hn).imp fun dofs i h => by rw [h, ok_bind])

/-- What a map of the function's space gathers at a node is what the lists lead to. -/
theorem valueByDofs?_of_gather {m : NodeMap} (hm : NodeMap.build f.space f.valueShape = .ok m)
    (hn : n < f.space.nodeCount) {a : TensorValue α} (ha : m.gather f.coefficients n = .ok a) :
    f.valueByDofs? n = .ok (some a) := by
  obtain ⟨hshape, -, -, -, hrows⟩ := NodeMap.rows_of_build hm
  have hrow : m.rows[n]? = some (f.space.row n) := by
    rw [← Array.getElem?_toList, hrows, List.getElem?_map, List.getElem?_range hn]
    rfl
  simp only [NodeMap.gather, bind_eq_ok, Failure.ofFault_eq_ok, NodeMap.indices_eq_ok, hshape] at ha
  obtain ⟨row, hrow', values, hvalues, r, hr, ha⟩ := ha
  obtain rfl : f.space.row n = row := Option.some.inj (hrow.symm.trans hrow')
  rw [valueByDofs?, if_pos (by rwa [FunctionSpace.nodesByDofs_eq]), lookUp_eq hn, hvalues, ok_bind,
    hr]
  cases r with
  | none => cases ha
  | some b => cases ha; rfl

/-- The space of a function has a map for the function's values. At each of its nodes the
function has a value, of the function's shape, which the map gathers from the coefficients
and the lists of degrees of freedom lead to as well; past the last node there is none. -/
theorem readers_agree (f : NodalFunction α) :
    ∃ m, NodeMap.build f.space f.valueShape = .ok m
      ∧ ∀ n, f.valueByDofs? n = .ok (f.nodeValue? n)
        ∧ (n < f.space.nodesByDofs → ∃ a, f.nodeValue? n = some a
          ∧ m.gather f.coefficients n = .ok a ∧ a.shape = f.valueShape)
        ∧ (f.space.nodesByDofs ≤ n → f.nodeValue? n = none) := by
  have hm : NodeMap.build f.space f.valueShape
      = .ok (NodeMap.ofBlocks f.valueShape f.space.stride f.space.nodeCount) := by
    rw [valueShape_eq_whole]
    exact NodeMap.build_valueShape f.whole
  refine ⟨_, hm, fun n => ?_⟩
  rw [FunctionSpace.nodesByDofs_eq]
  by_cases hn : n < f.space.nodeCount
  · obtain ⟨a, ha⟩ := f.exists_nodeValue? hn
    have hgather := NodeMap.gather_nodeValue? ha
    refine ⟨?_, fun _ => ⟨a, ha, hgather, (nodeValue?_eq_some.1 ha).2.1⟩,
      fun hle => absurd hn (Nat.not_lt_of_le hle)⟩
    rw [valueByDofs?_of_gather hm hn hgather, ha]
  · have hnone : f.nodeValue? n = none := if_neg hn
    refine ⟨?_, fun h => absurd h hn, fun _ => hnone⟩
    rw [valueByDofs?, if_neg (by rwa [FunctionSpace.nodesByDofs_eq]), hnone]
    rfl

/-- The value of a function on a segment at its second node. -/
theorem readers_agree_segment :
    let f := segmentFunction (0 : Int) 1 #[1, 2, 3, 4, 5, 6, 7, 8] rfl
    ∃ m a, NodeMap.build f.space (.matrix 2 2) = .ok m ∧ f.nodeValue? 1 = some a
      ∧ f.valueByDofs? 1 = .ok (some a) ∧ m.gather f.coefficients 1 = .ok a
      ∧ a.shape = .matrix 2 2 ∧ f.nodeValue? 2 = none := by
  intro f
  obtain ⟨m, hm, hagree⟩ := f.readers_agree
  obtain ⟨hdofs, hinside, -⟩ := hagree 1
  obtain ⟨-, -, hoff⟩ := hagree 2
  have hnodes : f.space.nodesByDofs = 2 := f.space.nodesByDofs_eq
  obtain ⟨a, ha, hgather, hshape⟩ := hinside (by rw [hnodes]; decide)
  exact ⟨m, a, hm, ha, ha ▸ hdofs, hgather, hshape, hoff (by rw [hnodes])⟩

end NodalFunction

end NodalAlgebra
