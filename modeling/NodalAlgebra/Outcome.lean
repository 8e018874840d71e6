/-!
# Outcomes

How an operation can end without an answer. An operation *refuses* an input for
a reason of its own domain, and the reason is a value the caller can inspect; or
it meets a *fault*: the request cannot be carried out at all, because a count is
no machine word, a table is too large to hold, or an index lies outside its
table. `bind_eq_ok` and the lemmas beside it say when an operation that is put
together from others has an answer.
-/

namespace NodalAlgebra

/-- Why a request cannot be carried out. -/
inductive Fault where
  /-- A count or index does not fit into a machine word. -/
  | overflow
  /-- A table would have more entries than can be held. -/
  | capacity
  /-- An index lies outside the table it points into. -/
  | outOfRange
  /-- Two tables that have to be of one length differ. -/
  | lengthMismatch
  /-- A value has another number of components than its space takes. -/
  | componentCount
  /-- Two values of one shape are of different forms. -/
  | formMismatch
deriving DecidableEq

/-- The text of a fault that the library words itself. -/
def Fault.message? : Fault → Option String
  | .componentCount => some "Number of components must match value shape of space"
  | .formMismatch =>
      some "internal error: entered unreachable code: Equal shapes imply equal variants"
  | _ => none

/-- Why an operation has no answer: it refuses its input, or it faults. -/
inductive Failure (ε : Type) where
  | refused (reason : ε)
  | fault (cause : Fault)
deriving DecidableEq

namespace Failure

variable {ε α : Type}

/-- An outcome that can only be refused, among those that can also fault. -/
def ofRefusal : Except ε α → Except (Failure ε) α
  | .ok a => .ok a
  | .error e => .error (.refused e)

/-- An outcome that can only fault, among those that can also be refused. -/
def ofFault : Except Fault α → Except (Failure ε) α
  | .ok a => .ok a
  | .error f => .error (.fault f)

/-- Restates the reason of a refusal; a fault stays as it is. -/
def mapReason {δ : Type} (f : ε → δ) : Except (Failure ε) α → Except (Failure δ) α
  | .ok a => .ok a
  | .error (.refused e) => .error (.refused (f e))
  | .error (.fault c) => .error (.fault c)

/-! ## Answers -/

@[simp] theorem ofRefusal_eq_ok {r : Except ε α} {a : α} : ofRefusal r = .ok a ↔ r = .ok a := by
  cases r <;> simp [ofRefusal]

@[simp] theorem ofFault_eq_ok {r : Except Fault α} {a : α} :
    (ofFault r : Except (Failure ε) α) = .ok a ↔ r = .ok a := by
  cases r <;> simp [ofFault]

@[simp] theorem mapReason_eq_ok {δ : Type} {f : ε → δ} {r : Except (Failure ε) α} {a : α} :
    mapReason f r = .ok a ↔ r = .ok a := by
  rcases r with (_ | _) | _ <;> simp [mapReason]

end Failure

/-- Two steps in a row have an answer exactly if the first has one and the second
has one for it. -/
theorem bind_eq_ok {ε α β : Type} {x : Except ε α} {f : α → Except ε β} {b : β} :
    (x >>= f) = .ok b ↔ ∃ a, x = .ok a ∧ f a = .ok b := by
  cases x <;> simp [bind, Except.bind]

theorem mapError_eq_ok {ε δ α : Type} {x : Except ε α} {f : ε → δ} {a : α} :
    x.mapError f = .ok a ↔ x = .ok a := by
  cases x with
  | error e => exact ⟨nofun, nofun⟩
  | ok b =>
    exact ⟨fun h => congrArg Except.ok (Except.ok.inj h),
      fun h => congrArg Except.ok (Except.ok.inj h)⟩

end NodalAlgebra
