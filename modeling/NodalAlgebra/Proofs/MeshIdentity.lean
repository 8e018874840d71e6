import NodalAlgebra.Mesh.Lemmas
import NodalAlgebra.Proofs.Sequence

/-!
# Identities of meshes

A supply hands out each number once. Among the meshes that have been constructed
from the initial supply on, in whatever order and with whatever input, meshes of
one identity are therefore the same mesh (`MeshSupply.Issued.eq_of_id`).
-/

namespace NodalAlgebra

namespace MeshSupply

variable {α : Type}

/-- The supply after some constructions, and the meshes of one type of scalars that
they made, the last one first. A rejected construction changes neither. -/
inductive Issued : MeshSupply → List (Mesh α) → Prop
  | initial : Issued .initial []
  | accepted {supply supply' : MeshSupply} {meshes : List (Mesh α)} {cell : CellType}
      {vertices : Array (Array α)} {connectivity : Array Nat} {M : Mesh α} :
      Issued supply meshes → supply.build cell vertices connectivity = .ok (M, supply') →
      Issued supply' (M :: meshes)
  /-- The supply also serves meshes with other scalars. -/
  | otherScalars {β : Type} {supply supply' : MeshSupply} {meshes : List (Mesh α)}
      {cell : CellType} {vertices : Array (Array β)} {connectivity : Array Nat} {M : Mesh β} :
      Issued supply meshes → supply.build cell vertices connectivity = .ok (M, supply') →
      Issued supply' meshes

/-- A construction takes the next number, if it is accepted. -/
theorem build_eq_ok {supply supply' : MeshSupply} {cell : CellType} {vertices : Array (Array α)}
    {connectivity : Array Nat} {M : Mesh α} :
    supply.build cell vertices connectivity = .ok (M, supply') ↔
      Mesh.build ⟨supply.next⟩ cell vertices connectivity = .ok M
        ∧ supply' = ⟨supply.next + 1⟩ := by
  unfold build
  cases Mesh.build ⟨supply.next⟩ cell vertices connectivity with
  | error e => simp
  | ok N => simpa using fun _ => eq_comm

theorem build_eq_error {supply : MeshSupply} {cell : CellType} {vertices : Array (Array α)}
    {connectivity : Array Nat} {e : MeshError} :
    supply.build cell vertices connectivity = .error e
      ↔ Mesh.defect? cell vertices connectivity = some e := by
  have hmesh : Mesh.build ⟨supply.next⟩ cell vertices connectivity = .error e
      ↔ Mesh.defect? cell vertices connectivity = some e := Mesh.build_eq_error
  rw [← hmesh, build]
  cases Mesh.build ⟨supply.next⟩ cell vertices connectivity with
  | ok M => simp
  | error e' => simp

namespace Issued

variable {supply : MeshSupply} {meshes : List (Mesh α)}

/-- The numbers in use are below the next one. -/
theorem number_lt (h : supply.Issued meshes) {M : Mesh α} (hM : M ∈ meshes) :
    M.id.number < supply.next := by
  induction h with
  | initial => simp at hM
  | @accepted supply _ meshes _ _ _ N _ hbuild ih =>
      obtain ⟨hN, rfl⟩ := build_eq_ok.1 hbuild
      show M.id.number < supply.next + 1
      rcases List.mem_cons.1 hM with rfl | hM
      · rw [(Mesh.build_eq_ok.1 hN).1]
        exact Nat.lt_succ_self _
      · have := ih hM
        omega
  | @otherScalars _ supply _ _ _ _ _ _ _ hbuild ih =>
      obtain ⟨-, rfl⟩ := build_eq_ok.1 hbuild
      exact Nat.lt_succ_of_lt (ih hM)

/-- Meshes of one identity are the same mesh. -/
theorem eq_of_id (h : supply.Issued meshes) {M N : Mesh α} (hM : M ∈ meshes) (hN : N ∈ meshes)
    (hid : M.id = N.id) : M = N := by
  induction h with
  | initial => simp at hM
  | @accepted supply _ meshes _ _ _ K hissued hbuild ih =>
      obtain ⟨hK, rfl⟩ := build_eq_ok.1 hbuild
      -- the new mesh bears a number that none of the earlier ones has
      have hfresh : ∀ L ∈ meshes, L.id ≠ K.id := by
        intro L hL heq
        have := hissued.number_lt hL
        rw [heq, (Mesh.build_eq_ok.1 hK).1] at this
        exact Nat.lt_irrefl _ this
      rcases List.mem_cons.1 hM with rfl | hM' <;> rcases List.mem_cons.1 hN with rfl | hN'
      · rfl
      · exact absurd hid.symm (hfresh N hN')
      · exact absurd hid (hfresh M hM')
      · exact ih hM' hN'
  | otherScalars _ _ ih => exact ih hM hN

end Issued

end MeshSupply

end NodalAlgebra
