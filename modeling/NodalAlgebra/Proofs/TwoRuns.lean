import NodalAlgebra.Proofs.Sequence

/-!
# Two runs side by side

Two runs go the same way if both have answers, and these are related, or both end
with the same failure (`Parallel`). Some failures can be exempted: if one of the
runs stops with such a failure, nothing is said of the other. Runs that are put
together from steps that go the same way go the same way themselves
(`Parallel.bind`, `Parallel.mapM`).
-/

namespace NodalAlgebra

variable {ε δ α α' β β' : Type}

/-- The outcomes of two runs that go the same way. A run that stops with a failure
from `stop` is not compared with the other one. -/
inductive Parallel (stop : ε → Prop) (R : α → β → Prop) : Except ε α → Except ε β → Prop
  | answers {a : α} {b : β} : R a b → Parallel stop R (.ok a) (.ok b)
  | failures (e : ε) : Parallel stop R (.error e) (.error e)
  | leftStops {e : ε} {y : Except ε β} : stop e → Parallel stop R (.error e) y
  | rightStops {e : ε} {x : Except ε α} : stop e → Parallel stop R x (.error e)

namespace Parallel

variable {stop : ε → Prop} {R : α → β → Prop} {S : α' → β' → Prop}

/-- A run goes the same way as itself. -/
theorem refl (stop : ε → Prop) {R : α → α → Prop} (hR : ∀ a, R a a) (x : Except ε α) :
    Parallel stop R x x := by
  cases x with
  | ok a => exact .answers (hR a)
  | error e => exact .failures e

/-- Where nothing is exempted, the run beside one with an answer has a related answer. -/
theorem exists_ok {a : α} {y : Except ε β} (h : Parallel (fun _ => False) R (.ok a) y) :
    ∃ b, y = .ok b ∧ R a b := by
  cases h with
  | answers hab => exact ⟨_, rfl, hab⟩
  | rightStops hstop => exact hstop.elim

/-- Where nothing is exempted, the run beside one that fails fails in the same way. -/
theorem eq_error {e : ε} {y : Except ε β} (h : Parallel (fun _ => False) R (.error e) y) :
    y = .error e := by
  cases h with
  | failures e => rfl
  | leftStops hstop => exact hstop.elim
  | rightStops hstop => exact hstop.elim

/-! ## Steps in a row -/

theorem bind {x : Except ε α} {y : Except ε β} (h : Parallel stop R x y) {f : α → Except ε α'}
    {g : β → Except ε β'} (hfg : ∀ a b, R a b → Parallel stop S (f a) (g b)) :
    Parallel stop S (x >>= f) (y >>= g) := by
  cases h with
  | answers hab => exact hfg _ _ hab
  | failures e => exact .failures e
  | leftStops hstop => exact .leftStops hstop
  | rightStops hstop => exact .rightStops hstop

/-- Lists of steps go the same way if they do so step by step. -/
theorem mapM {f : α → Except ε α'} {g : β → Except ε β'} {l : List α} {r : List β}
    (h : List.Forall₂ (fun a b => Parallel stop S (f a) (g b)) l r) :
    Parallel stop (List.Forall₂ S) (l.mapM f) (r.mapM g) := by
  induction h with
  | nil => exact .answers .nil
  | cons hab _ ih =>
      rw [List.mapM_cons, List.mapM_cons]
      exact hab.bind fun a b hS => ih.bind fun as bs hSs => .answers (.cons hS hSs)

/-- A choice that both runs make in the same way. -/
theorem dite {p : Prop} [Decidable p] {x : p → Except ε α} {x' : ¬ p → Except ε α}
    {y : p → Except ε β} {y' : ¬ p → Except ε β} (h : ∀ hp, Parallel stop R (x hp) (y hp))
    (h' : ∀ hp, Parallel stop R (x' hp) (y' hp)) :
    Parallel stop R (if hp : p then x hp else x' hp) (if hp : p then y hp else y' hp) := by
  by_cases hp : p
  · rw [dif_pos hp, dif_pos hp]
    exact h hp
  · rw [dif_neg hp, dif_neg hp]
    exact h' hp

/-! ## Restated failures -/

/-- Runs whose failures are restated in one way go the same way. -/
theorem mapError {x : Except ε α} {y : Except ε β} (h : Parallel stop R x y) (φ : ε → δ)
    {stop' : δ → Prop} (hstop : ∀ e, stop e → stop' (φ e)) :
    Parallel stop' R (x.mapError φ) (y.mapError φ) := by
  cases h with
  | answers hab => exact .answers hab
  | failures e => exact .failures (φ e)
  | leftStops h => exact .leftStops (hstop _ h)
  | rightStops h => exact .rightStops (hstop _ h)

theorem ofRefusal {x : Except ε α} {y : Except ε β} (h : Parallel stop R x y)
    {stop' : Failure ε → Prop} (hstop : ∀ e, stop e → stop' (.refused e)) :
    Parallel stop' R (Failure.ofRefusal x) (Failure.ofRefusal y) := by
  cases h with
  | answers hab => exact .answers hab
  | failures e => exact .failures (Failure.refused e)
  | leftStops h => exact .leftStops (hstop _ h)
  | rightStops h => exact .rightStops (hstop _ h)

theorem mapReason {x : Except (Failure ε) α} {y : Except (Failure ε) β}
    (h : Parallel (fun _ => False) R x y) (φ : ε → δ) (stop : Failure δ → Prop) :
    Parallel stop R (Failure.mapReason φ x) (Failure.mapReason φ y) := by
  cases h with
  | answers hab => exact .answers hab
  | failures e => cases e <;> exact .failures _
  | leftStops h => exact h.elim
  | rightStops h => exact h.elim

end Parallel

end NodalAlgebra
