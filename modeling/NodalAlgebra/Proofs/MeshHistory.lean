import Mathlib.Algebra.Ring.Nat
import Mathlib.Data.List.Induction
import Mathlib.Data.List.Nodup
import NodalAlgebra.Mesh.Grid
import NodalAlgebra.Proofs.Agreement
import NodalAlgebra.Proofs.Blocks
import NodalAlgebra.Proofs.MeshIdentity
import NodalAlgebra.Proofs.Nodewise

/-!
# Histories of meshes

A running program asks one supply for meshes of whatever scalars, by their points and
indices or as grids, and copies meshes it has. Which meshes are made for a request is
said in `MeshRequest.make_of_answer` and `MeshRequest.make_of_error`, and what an event
does to the meshes of the program in `MeshStore.step_cases`; from this the two facts that
carry the rest are kept by every event (`MeshStore.Valid`): numbers in use lie below the
next one, and an identity stands for one mesh. Identities are counted by sizes, so a
number would come back after as many constructions as there are sizes; with fewer of them
none does (`MeshStore.run_identity`). What holds over issued meshes holds over those of
every run (`MeshStore.exists_issued`).
-/

namespace NodalAlgebra

variable {α : Type}

/-! ## Grids -/

/-- An accepted construction has taken the next number. -/
theorem MeshSupply.next_of_build {supply supply' : MeshSupply} {cell : CellType}
    {vertices : Array (Array α)} {connectivity : Array Nat} {M : Mesh α}
    (h : supply.build cell vertices connectivity = .ok (M, supply')) :
    M.id.number = supply.next ∧ supply'.next = supply.next + 1 := by
  obtain ⟨hM, rfl⟩ := build_eq_ok.1 h
  exact ⟨by rw [(Mesh.build_eq_ok.1 hM).1], rfl⟩

namespace Grid

variable {supply supply' : MeshSupply} {M : Mesh α}

theorem next_of_unitInterval [One α] [Mul α] [Div α] [NatCast α] {n : Nat}
    (h : unitInterval supply n = .ok (M, supply')) :
    M.id.number = supply.next ∧ supply'.next = supply.next + 1 := by
  unfold unitInterval at h
  split at h
  · exact MeshSupply.next_of_build (Failure.ofRefusal_eq_ok.1 h)
  · obtain ⟨_, -, h⟩ := bind_eq_ok.1 h
    exact MeshSupply.next_of_build (Failure.ofRefusal_eq_ok.1 h)

/-- A rectangle is one construction, of squares. -/
theorem next_of_rectangle [Add α] [Neg α] [Mul α] [Div α] [NatCast α] {unitLength x y : α}
    {unitsX unitsY cellsPerUnit : Nat}
    (h : rectangle supply unitLength unitsX unitsY cellsPerUnit x y = .ok (M, supply')) :
    M.cell = .quadrilateral ∧ M.id.number = supply.next ∧ supply'.next = supply.next + 1 := by
  have hbuild : ∃ vertices connectivity,
      supply.build .quadrilateral vertices connectivity = .ok (M, supply') := by
    unfold rectangle at h
    split at h
    · exact ⟨_, _, Failure.ofRefusal_eq_ok.1 h⟩
    · obtain ⟨nx, -, h⟩ := bind_eq_ok.1 h
      obtain ⟨ny, -, h⟩ := bind_eq_ok.1 h
      obtain ⟨columns, -, h⟩ := bind_eq_ok.1 h
      obtain ⟨rows, -, h⟩ := bind_eq_ok.1 h
      obtain ⟨_, -, h⟩ := bind_eq_ok.1 h
      exact ⟨_, _, Failure.ofRefusal_eq_ok.1 h⟩
  obtain ⟨vertices, connectivity, hbuild⟩ := hbuild
  obtain ⟨hM, -⟩ := MeshSupply.build_eq_ok.1 hbuild
  exact ⟨(Mesh.build_eq_ok.1 hM).2.1, MeshSupply.next_of_build hbuild⟩

theorem length_splitSquare {c : List Nat} (h : c.length = 4) : (splitSquare c).length = 6 := by
  match c, h with
  | [a, b, c, d], _ => rfl

theorem length_flatMap_splitSquare {cells : List (List Nat)} (h : ∀ c ∈ cells, c.length = 4) :
    (cells.flatMap splitSquare).length = cells.length * 6 := by
  induction cells with
  | nil => rfl
  | cons c cells ih =>
      obtain ⟨hc, hcells⟩ := List.forall_mem_cons.1 h
      rw [List.flatMap_cons, List.length_append, length_splitSquare hc, ih hcells,
        List.length_cons]
      omega

theorem mem_of_mem_splitSquare {c : List Nat} {i : Nat} (h : i ∈ splitSquare c) : i ∈ c := by
  unfold splitSquare at h
  split at h
  · simp only [List.mem_cons, List.not_mem_nil, or_false] at h ⊢
    omega
  · simp at h

/-- The triangles of a mesh of squares are always accepted as a mesh. -/
theorem exists_splitSquares (supply : MeshSupply) (hM : M.cell = .quadrilateral) :
    ∃ N, splitSquares supply M = .ok (N, ⟨supply.next + 1⟩) := by
  let N : Mesh α :=
    { id := ⟨supply.next⟩
      cell := .triangle
      vertices := M.vertices
      connectivity := (M.cells.flatMap splitSquare).toArray
      wholeCells := by
        rw [List.size_toArray, length_flatMap_splitSquare fun c hc => ?_]
        · show M.cells.length * 6 % 3 = 0
          omega
        · rw [Mesh.length_of_mem_cells hc, hM]
          rfl
      uniform := M.uniform
      inRange := by
        intro i hi
        obtain ⟨c, hc, hi⟩ := List.mem_flatMap.1 (List.mem_toArray.1 hi)
        exact Mesh.lt_of_mem_cells hc (mem_of_mem_splitSquare hi) }
  exact ⟨N, MeshSupply.build_eq_ok.2 ⟨Mesh.build_eq_ok.2 ⟨rfl, rfl, rfl, rfl⟩, rfl⟩⟩

variable [Zero α] [One α] [Add α] [Neg α] [Mul α] [Div α] [NatCast α] {n : Nat}

/-- Triangles fail only where the squares that they are made from do. -/
theorem unitSquareTriangles_eq_error {x : Failure MeshError} :
    (unitSquareTriangles supply n : Except _ (Mesh α × MeshSupply)) = .error x ↔
      (unitSquare supply n : Except _ (Mesh α × MeshSupply)) = .error x := by
  rw [unitSquareTriangles, bind_eq_error]
  constructor
  · rintro (h | ⟨⟨squares, middle⟩, hsquares, h⟩)
    · exact h
    · obtain ⟨N, hN⟩ := exists_splitSquares middle (next_of_rectangle hsquares).1
      simp only [hN] at h
      cases h
  · exact .inl

end Grid

/-! ## Consecutive numbers -/

/-- Items numbered downwards to `a` have their numbers from `a` on. -/
theorem le_and_lt_of_map_eq {β : Type*} {number : β → Nat} {l : List β} {a c : Nat}
    (h : l.map number = (List.range' a c).reverse) {x : β} (hx : x ∈ l) :
    a ≤ number x ∧ number x < a + c := by
  have hmem : number x ∈ (List.range' a c).reverse := h ▸ List.mem_map_of_mem hx
  exact List.mem_range'_1.1 (List.mem_reverse.1 hmem)

/-- A mesh of whatever scalars. -/
abbrev AnyMesh : Type 1 := Σ α : Type, Mesh α

/-- Meshes that have the next numbers are issued after those that have been. -/
theorem MeshSupply.Issued.append {supply : MeshSupply} {meshes : List (Mesh α)}
    (h : supply.Issued meshes) {new : List AnyMesh} {c : Nat}
    (hnew : new.map (·.2.id.number) = (List.range' supply.next c).reverse) :
    ∃ meshes', Issued ⟨supply.next + c⟩ meshes' ∧ (∀ M ∈ meshes, M ∈ meshes')
      ∧ ∀ M, ⟨α, M⟩ ∈ new → M ∈ meshes' := by
  induction c generalizing new with
  | zero =>
      obtain rfl : new = [] := by simpa using hnew
      exact ⟨meshes, h, fun M hM => hM, by simp⟩
  | succ c ih =>
      rw [List.range'_1_concat, List.reverse_append] at hnew
      obtain ⟨⟨β, N⟩, earlier, rfl, hN, hearlier⟩ := List.map_eq_cons_iff.1 hnew
      obtain ⟨meshes', hissued, hold, hmem⟩ := ih hearlier
      have hbuild : MeshSupply.build ⟨supply.next + c⟩ N.cell N.vertices N.connectivity
          = .ok (N, ⟨supply.next + c + 1⟩) :=
        build_eq_ok.2 ⟨Mesh.build_eq_ok.2 ⟨congrArg MeshId.mk hN, rfl, rfl, rfl⟩, rfl⟩
      -- the last mesh counts if it has the scalars in question
      by_cases hβ : β = α
      · subst hβ
        refine ⟨N :: meshes', .accepted hissued hbuild, fun M hM => ?_, fun M hM => ?_⟩
        · exact List.mem_cons_of_mem _ (hold M hM)
        · rcases List.mem_cons.1 hM with hM | hM
          · cases hM
            exact List.mem_cons_self
          · exact List.mem_cons_of_mem _ (hmem M hM)
      · refine ⟨meshes', .otherScalars hissued hbuild, hold, fun M hM => ?_⟩
        rcases List.mem_cons.1 hM with hM | hM
        · exact absurd (Sigma.mk.inj hM).1.symm hβ
        · exact hmem M hM

/-! ## Requests -/

/-- What a program can ask a supply for: a mesh of given points and indices, or a grid of
scalars that can be calculated with. -/
inductive MeshRequest (α : Type) where
  | construct (cell : CellType) (vertices : Array (Array α)) (connectivity : Array Nat)
  | interval [One α] [Mul α] [Div α] [NatCast α] (n : Nat)
  | rectangle [Add α] [Neg α] [Mul α] [Div α] [NatCast α] (unitLength : α)
      (unitsX unitsY cellsPerUnit : Nat) (x y : α)
  | square [Zero α] [One α] [Add α] [Neg α] [Mul α] [Div α] [NatCast α] (n : Nat)
  | triangles [Zero α] [One α] [Add α] [Neg α] [Mul α] [Div α] [NatCast α] (n : Nat)

namespace MeshRequest

/-- The mesh that a request is answered with, and the supply from then on. -/
def answer (supply : MeshSupply) :
    MeshRequest α → Except (Failure MeshError) (Mesh α × MeshSupply)
  | construct cell vertices connectivity =>
      Failure.ofRefusal (supply.build cell vertices connectivity)
  | interval n => Grid.unitInterval supply n
  | rectangle unitLength unitsX unitsY cellsPerUnit x y =>
      Grid.rectangle supply unitLength unitsX unitsY cellsPerUnit x y
  | square n => Grid.unitSquare supply n
  | triangles n => Grid.unitSquareTriangles supply n

/-- The meshes that are constructed for a request, the last one first, and the supply from
then on, whatever the answer is. Triangles are made from squares, which are a mesh too. -/
def make (supply : MeshSupply) (r : MeshRequest α) : List (Mesh α) × MeshSupply :=
  match r with
  | triangles n =>
      match Grid.unitSquare supply n with
      | .error _ => ([], supply)
      | .ok (squares, middle) =>
          match Grid.splitSquares middle squares with
          | .error _ => ([squares], middle)
          | .ok (M, supply') => ([M, squares], supply')
  | r =>
      match r.answer supply with
      | .error _ => ([], supply)
      | .ok (M, supply') => ([M], supply')

/-- The number of constructions that a request comes to. -/
def constructions : MeshRequest α → Nat
  | triangles _ => 2
  | _ => 1

variable {supply supply' : MeshSupply} {r : MeshRequest α} {M : Mesh α}

/-- An accepted single construction has taken the next number, whatever was asked for. -/
theorem next_of_answer (hone : r.constructions = 1) (h : r.answer supply = .ok (M, supply')) :
    M.id.number = supply.next ∧ supply'.next = supply.next + 1 := by
  cases r with
  | construct cell vertices connectivity =>
      exact MeshSupply.next_of_build (Failure.ofRefusal_eq_ok.1 h)
  | interval n => exact Grid.next_of_unitInterval h
  | rectangle unitLength unitsX unitsY cellsPerUnit x y => exact (Grid.next_of_rectangle h).2
  | square n => exact (Grid.next_of_rectangle h).2
  | triangles n => exact absurd hone (show ¬ 2 = 1 by decide)

/-- The mesh that a request is answered with is the last one made for it, and those made
for it have the next numbers, one for each construction. -/
theorem make_of_answer (h : r.answer supply = .ok (M, supply')) :
    (∃ others, r.make supply = (M :: others, supply'))
      ∧ (r.make supply).1.map (·.id.number) = (List.range' supply.next r.constructions).reverse
      ∧ supply'.next = supply.next + r.constructions := by
  cases r with
  | triangles n =>
      obtain ⟨⟨squares, middle⟩, hsquares, htriangles⟩ := bind_eq_ok.1 h
      have htriangles := Failure.ofRefusal_eq_ok.1 htriangles
      obtain ⟨-, hid, hnext⟩ := Grid.next_of_rectangle hsquares
      obtain ⟨hid', hnext'⟩ := MeshSupply.next_of_build htriangles
      simp only [make, hsquares, htriangles, constructions]
      refine ⟨⟨[squares], rfl⟩, ?_, by omega⟩
      simp [hid, hid', hnext, List.range'_succ]
  | _ =>
      obtain ⟨hid, hnext⟩ := next_of_answer rfl h
      simp only [make, h, constructions]
      exact ⟨⟨[], rfl⟩, by simp [hid], hnext⟩

/-- A request that fails makes no mesh and takes no number. -/
theorem make_of_error {x : Failure MeshError} (h : r.answer supply = .error x) :
    r.make supply = ([], supply) := by
  cases r with
  | triangles n => simp only [make, Grid.unitSquareTriangles_eq_error.1 h]
  | _ => simp only [make, h]

theorem le_number_of_mem_make (h : M ∈ (r.make supply).1) : supply.next ≤ M.id.number := by
  cases hanswer : r.answer supply with
  | ok answer =>
      obtain ⟨-, hnumbers, -⟩ := make_of_answer hanswer
      exact (le_and_lt_of_map_eq hnumbers h).1
  | error x =>
      rw [make_of_error hanswer] at h
      simp at h

end MeshRequest

/-! ## Events -/

/-- A step of a program: a request for a mesh of some scalars, or a copy of the mesh in a
place, counted from the last one. -/
inductive MeshEvent : Type 1 where
  | request {α : Type} (r : MeshRequest α)
  | clone (place : Nat)

/-- The number of constructions that an event comes to. -/
def MeshEvent.constructions : MeshEvent → Nat
  | request r => r.constructions
  | clone _ => 0

/-- The supply of a running program, and all meshes that have been constructed or copied
in it, the last one first. -/
structure MeshStore : Type 1 where
  supply : MeshSupply
  meshes : List AnyMesh

namespace MeshStore

/-- No number has been taken, and there is no mesh. -/
def initial : MeshStore := ⟨.initial, []⟩

/-- The store after an event. A copy of a mesh is that mesh. -/
def step (st : MeshStore) : MeshEvent → MeshStore
  | .request (α := α) r =>
      ⟨(r.make st.supply).2, (r.make st.supply).1.map (⟨α, ·⟩) ++ st.meshes⟩
  | .clone place => ⟨st.supply, st.meshes[place]?.toList ++ st.meshes⟩

/-- The store after a list of events, the first event first. -/
def run (events : List MeshEvent) : MeshStore := events.foldl step initial

/-- The number of constructions that some events come to. -/
def constructions (events : List MeshEvent) : Nat := (events.map MeshEvent.constructions).sum

variable {st : MeshStore}

/-- An event adds meshes that have the next numbers, or takes no number and adds only
meshes that are there already. -/
theorem step_cases (st : MeshStore) (event : MeshEvent) :
    ∃ new : List AnyMesh, (st.step event).meshes = new ++ st.meshes
      ∧ ((new.map (·.2.id.number) = (List.range' st.supply.next event.constructions).reverse
          ∧ (st.step event).supply.next = st.supply.next + event.constructions)
        ∨ ((st.step event).supply = st.supply ∧ ∀ X ∈ new, X ∈ st.meshes)) := by
  cases event with
  | @request α r =>
      refine ⟨_, rfl, ?_⟩
      cases h : r.answer st.supply with
      | ok answer =>
          left
          obtain ⟨⟨others, hmake⟩, hnumbers, hnext⟩ := MeshRequest.make_of_answer h
          rw [List.map_map]
          refine ⟨hnumbers, ?_⟩
          show (r.make st.supply).2.next = _
          rw [hmake]
          exact hnext
      | error x =>
          right
          simp only [step, MeshRequest.make_of_error h]
          exact ⟨trivial, by simp⟩
  | clone place =>
      refine ⟨_, rfl, .inr ⟨rfl, fun X hX => ?_⟩⟩
      exact List.mem_of_getElem? (Option.mem_toList.1 hX)

/-- What holds at first and is kept by every event holds in every run. -/
theorem run_induct {P : MeshStore → Prop} (hinitial : P initial)
    (hstep : ∀ st event, P st → P (st.step event)) (events : List MeshEvent) :
    P (run events) := by
  have hfoldl : ∀ st, P st → P (events.foldl step st) := by
    induction events with
    | nil => exact fun st h => h
    | cons event events ih => exact fun st h => ih _ (hstep st event h)
  exact hfoldl initial hinitial

/-! ## Numbers and identities -/

/-- Numbers in use lie below the next one, and meshes of one identity are one mesh. -/
structure Valid (st : MeshStore) : Prop where
  number_lt : ∀ X ∈ st.meshes, X.2.id.number < st.supply.next
  eq_of_id : ∀ X ∈ st.meshes, ∀ Y ∈ st.meshes, X.2.id = Y.2.id → X = Y

theorem valid_initial : initial.Valid := ⟨by simp [initial], by simp [initial]⟩

theorem Valid.step (h : st.Valid) (event : MeshEvent) : (st.step event).Valid := by
  obtain ⟨new, hmeshes, ⟨hnumbers, hnext⟩ | ⟨hsupply, hnew⟩⟩ := step_cases st event
  · -- the numbers of the new meshes are those of no meshes before, and all different
    have hrange : ∀ X ∈ new, st.supply.next ≤ X.2.id.number
        ∧ X.2.id.number < st.supply.next + event.constructions :=
      fun X hX => le_and_lt_of_map_eq hnumbers hX
    have hnodup : (new.map (·.2.id.number)).Nodup := by
      rw [hnumbers, List.nodup_reverse]
      exact List.nodup_range'
    have hfresh : ∀ X ∈ new, ∀ Y ∈ st.meshes, X.2.id ≠ Y.2.id := by
      intro X hX Y hY hid
      have hle := (hrange X hX).1
      have hlt := h.number_lt Y hY
      rw [hid] at hle
      omega
    refine ⟨?_, ?_⟩
    · rw [hmeshes, hnext]
      refine List.forall_mem_append.2 ⟨fun X hX => (hrange X hX).2, fun X hX => ?_⟩
      exact Nat.lt_add_right _ (h.number_lt X hX)
    · intro X hX Y hY hid
      rw [hmeshes, List.mem_append] at hX hY
      rcases hX with hX | hX <;> rcases hY with hY | hY
      · exact List.inj_on_of_nodup_map hnodup hX hY (congrArg MeshId.number hid)
      · exact absurd hid (hfresh X hX Y hY)
      · exact absurd hid.symm (hfresh Y hY X hX)
      · exact h.eq_of_id X hX Y hY hid
  · have hold : ∀ X ∈ (st.step event).meshes, X ∈ st.meshes := by
      rw [hmeshes]
      exact List.forall_mem_append.2 ⟨hnew, fun X hX => hX⟩
    refine ⟨fun X hX => ?_, fun X hX Y hY => h.eq_of_id X (hold X hX) Y (hold Y hY)⟩
    rw [hsupply]
    exact h.number_lt X (hold X hX)

/-- In every run the numbers in use lie below the next one, and an identity stands for one
mesh. -/
theorem run_valid (events : List MeshEvent) : (run events).Valid :=
  run_induct valid_initial (fun _ event h => h.step event) events

theorem run_concat (events : List MeshEvent) (event : MeshEvent) :
    run (events ++ [event]) = (run events).step event := by
  simp [run]

/-- A run takes at most one number for each construction. -/
theorem next_run_le (events : List MeshEvent) :
    (run events).supply.next ≤ constructions events := by
  induction events using List.reverseRecOn with
  | nil => exact Nat.le_refl _
  | append_singleton events event ih =>
      rw [run_concat, constructions, List.map_append, List.sum_append]
      show _ ≤ constructions events + (event.constructions + 0)
      obtain ⟨_, -, ⟨-, hnext⟩ | ⟨hsupply, -⟩⟩ := step_cases (run events) event
      · omega
      · rw [hsupply]
        omega

/-- With fewer constructions than sizes the numbers are sizes. -/
theorem number_lt_limit {events : List MeshEvent} (h : constructions events < Size.limit)
    {X : AnyMesh} (hX : X ∈ (run events).meshes) : X.2.id.number < Size.limit := by
  have hlt := (run_valid events).number_lt X hX
  have hle := next_run_le events
  omega

/-- The meshes of some scalars in a run have been issued by its supply. -/
theorem exists_issued (events : List MeshEvent) (α : Type) :
    ∃ meshes : List (Mesh α), (run events).supply.Issued meshes
      ∧ ∀ M, ⟨α, M⟩ ∈ (run events).meshes → M ∈ meshes := by
  let P : MeshStore → Prop := fun st => ∃ meshes : List (Mesh α), st.supply.Issued meshes
    ∧ ∀ M, ⟨α, M⟩ ∈ st.meshes → M ∈ meshes
  have hinitial : P initial := ⟨[], .initial, by simp [initial]⟩
  refine run_induct hinitial ?_ events
  rintro st event ⟨meshes, hissued, hmeshes⟩
  obtain ⟨new, hstep, ⟨hnumbers, hnext⟩ | ⟨hsupply, hnew⟩⟩ := step_cases st event
  · obtain ⟨meshes', hissued', hold, hnew⟩ := hissued.append hnumbers
    refine ⟨meshes', ?_, fun M hM => ?_⟩
    · rwa [← hnext] at hissued'
    · rw [hstep, List.mem_append] at hM
      exact hM.elim (hnew M) fun hM => hold M (hmeshes M hM)
  · refine ⟨meshes, by rwa [hsupply], fun M hM => hmeshes M ?_⟩
    rw [hstep, List.mem_append] at hM
    exact hM.elim (hnew _) id

end MeshStore

/-! ## Spaces -/

/-- Two spaces number their degrees of freedom alike, as wholes and component by component,
have their nodes at the same places, and take the same coefficients. -/
structure FunctionSpace.SameLayout [Zero α] [Add α] [Div α] [NatCast α] (V W : FunctionSpace α) :
    Prop where
  dim_eq : V.dim = W.dim
  dofs_eq : V.dofs = W.dofs
  nodeCount_eq : V.nodeCount = W.nodeCount
  subSpaces_eq : V.subSpaces.map dofs = W.subSpaces.map dofs
  nodePoints_eq : V.nodePoints = W.nodePoints
  coefficients : ∀ f : NodalFunction α, f.space = V →
    ∃ g, NodalFunction.ofCoefficients W f.coefficients = .ok g

theorem FunctionSpace.SameLayout.refl [Zero α] [Add α] [Div α] [NatCast α]
    (V : FunctionSpace α) : V.SameLayout V where
  dim_eq := rfl
  dofs_eq := rfl
  nodeCount_eq := rfl
  subSpaces_eq := rfl
  nodePoints_eq := rfl
  coefficients := by
    rintro f rfl
    exact ⟨{ f with mark := none }, NodalFunction.ofCoefficients_eq_ok.2 ⟨rfl, rfl, rfl⟩⟩

/-- Compatible spaces over meshes of one history are one space, whichever copies of the
mesh they have been built on. -/
theorem MeshStore.Valid.space_eq {st : MeshStore} (hst : st.Valid) {M N : Mesh α}
    (hM : ⟨α, M⟩ ∈ st.meshes) (hN : ⟨α, N⟩ ∈ st.meshes) {e e' : FiniteElement}
    {V W : FunctionSpace α} (hV : FunctionSpace.build M e = .ok V)
    (hW : FunctionSpace.build N e' = .ok W) (h : V.isCompatible W = true) : V = W := by
  obtain ⟨rfl, rfl, hVc⟩ := FunctionSpace.build_eq_ok.1 hV
  obtain ⟨rfl, rfl, hWc⟩ := FunctionSpace.build_eq_ok.1 hW
  obtain ⟨hwhole, hid⟩ := (FunctionSpace.isCompatible_iff hVc hWc).1 h
  have hmesh : (⟨α, V.mesh⟩ : AnyMesh) = ⟨α, W.mesh⟩ := hst.eq_of_id _ hM _ hN hid
  exact FunctionSpace.ext_data (eq_of_heq (Sigma.mk.inj hmesh).2) hwhole (hVc.trans hWc.symm)

/-! ## Runs -/

namespace MeshStore

/-- In a run with fewer constructions than there are sizes, counting those that are refused
and all those that grids are made by, identities are sizes, and even up to the number of
sizes an identity stands for one mesh: what a request makes has a number that no mesh
before it has, and a request that fails changes nothing. Spaces that are compatible
therefore have one layout. -/
theorem run_identity {events : List MeshEvent} (h : constructions events < Size.limit) :
    (∀ X ∈ (run events).meshes, X.2.id.number < Size.limit)
      ∧ (∀ X ∈ (run events).meshes, ∀ Y ∈ (run events).meshes,
        X.2.id.number % Size.limit = Y.2.id.number % Size.limit → X = Y)
      ∧ (∀ before (α : Type) (r : MeshRequest α) after,
        events = before ++ .request r :: after →
          (∀ M supply', r.answer (run before).supply = .ok (M, supply') →
            M ∈ (r.make (run before).supply).1)
          ∧ (∀ M ∈ (r.make (run before).supply).1, ∀ X ∈ (run before).meshes,
            M.id.number % Size.limit ≠ X.2.id.number % Size.limit)
          ∧ ∀ x, r.answer (run before).supply = .error x →
            run (before ++ [.request r]) = run before)
      ∧ ∀ (α : Type) [Zero α] [Add α] [Div α] [NatCast α] (M N : Mesh α),
        ⟨α, M⟩ ∈ (run events).meshes → ⟨α, N⟩ ∈ (run events).meshes →
          ∀ e e' V W, FunctionSpace.build M e = .ok V → FunctionSpace.build N e' = .ok W →
            V.isCompatible W = true → V.SameLayout W := by
  have hvalid := run_valid events
  refine ⟨fun X hX => number_lt_limit h hX, ?_, ?_, ?_⟩
  · intro X hX Y hY hid
    rw [Nat.mod_eq_of_lt (number_lt_limit h hX), Nat.mod_eq_of_lt (number_lt_limit h hY)] at hid
    exact hvalid.eq_of_id X hX Y hY (congrArg MeshId.mk hid)
  · intro before α r after hevents
    have hprefix : constructions (before ++ [.request r]) < Size.limit := by
      rw [hevents, constructions, List.map_append, List.sum_append, List.map_cons,
        List.sum_cons] at h
      rw [constructions, List.map_append, List.sum_append]
      show _ + (MeshEvent.constructions (.request r) + 0) < _
      omega
    refine ⟨fun M supply' hanswer => ?_, fun M hM X hX => ?_, fun x hanswer => ?_⟩
    · obtain ⟨⟨others, hmake⟩, -⟩ := MeshRequest.make_of_answer hanswer
      rw [hmake]
      exact List.mem_cons_self
    · have hle := MeshRequest.le_number_of_mem_make hM
      have hlt := (run_valid before).number_lt X hX
      have hmem : (⟨α, M⟩ : AnyMesh) ∈ (run (before ++ [.request r])).meshes := by
        rw [run_concat]
        exact List.mem_append_left _ (List.mem_map_of_mem hM)
      have hMlimit : M.id.number < Size.limit := number_lt_limit hprefix hmem
      rw [Nat.mod_eq_of_lt hMlimit, Nat.mod_eq_of_lt (by omega)]
      omega
    · rw [run_concat]
      simp only [step, MeshRequest.make_of_error hanswer]
      rfl
  · intro α _ _ _ _ M N hM hN e e' V W hV hW hcompatible
    rw [hvalid.space_eq hM hN hV hW hcompatible]
    exact .refl W

/-- A segment is made and copied, a mesh of one index is refused, and the segment is made
once more. The new segment has another number than the first one, and spaces over the
first one and its copy have one layout. -/
theorem run_identity_segment :
    let request : MeshRequest Int := .construct .interval #[#[0], #[1]] #[0, 1]
    let refused : MeshRequest Int := .construct .interval #[#[0]] #[0]
    let before : List MeshEvent := [.request request, .clone 0, .request refused]
    (run before).meshes = [⟨Int, segment 0 1⟩, ⟨Int, segment 0 1⟩]
      ∧ (∀ M ∈ (request.make (run before).supply).1,
        M.id.number % Size.limit ≠ (segment (0 : Int) 1).id.number % Size.limit)
      ∧ (segmentMatrices (0 : Int) 1).SameLayout (segmentMatrices 0 1) := by
  intro request refused before
  have hmeshes : (run before).meshes = [⟨Int, segment 0 1⟩, ⟨Int, segment 0 1⟩] := rfl
  have hfew : constructions (before ++ [.request request]) < Size.limit := by decide
  obtain ⟨-, -, hrequests, hspaces⟩ := run_identity hfew
  obtain ⟨-, hfresh, -⟩ := hrequests before Int request [] rfl
  have hsegment : (⟨Int, segment 0 1⟩ : AnyMesh) ∈ (run (before ++ [.request request])).meshes := by
    rw [run_concat]
    refine List.mem_append_right _ ?_
    rw [hmeshes]
    exact List.mem_cons_self
  have hbuild : FunctionSpace.build (segment (0 : Int) 1) (.tensor ⟨.lagrange, 1, .interval⟩ 2 2)
      = .ok (segmentMatrices 0 1) := FunctionSpace.build_eq_ok.2 ⟨rfl, rfl, rfl⟩
  have hcompatible : (segmentMatrices (0 : Int) 1).isCompatible (segmentMatrices 0 1) = true := by
    decide
  refine ⟨hmeshes, fun M hM => ?_, ?_⟩
  · exact hfresh M hM ⟨Int, segment 0 1⟩ (by rw [hmeshes]; exact List.mem_cons_self)
  · exact hspaces Int _ _ hsegment hsegment _ _ _ _ hbuild hbuild hcompatible

end MeshStore

end NodalAlgebra
