import Mathlib.Data.List.Forall2
import NodalAlgebra.Outcome

/-!
# Steps in a row

When a list of steps, each of which can end without an answer, has answers, and
which failure ends it otherwise: all steps before the failing one had an answer
(`mapM_eq_error`). A list of answers goes with the list of steps item by item
(`mapM_eq_ok`, `mapM_eq_some`).
-/

namespace NodalAlgebra

variable {ε α β γ : Type}

/-! ## Two steps -/

@[simp] theorem ok_bind (a : α) (f : α → Except ε β) : (Except.ok a >>= f) = f a := rfl

@[simp] theorem error_bind (e : ε) (f : α → Except ε β) :
    (Except.error e >>= f) = .error e := rfl

@[simp] theorem pure_eq_ok (a : α) : (pure a : Except ε α) = .ok a := rfl

@[simp] theorem throw_eq_error (e : ε) : (throw e : Except ε α) = .error e := rfl

/-- Two steps in a row fail if the first one does, or the second after the first. -/
theorem bind_eq_error {x : Except ε α} {f : α → Except ε β} {e : ε} :
    (x >>= f) = .error e ↔ x = .error e ∨ ∃ a, x = .ok a ∧ f a = .error e := by
  cases x <;> simp [bind, Except.bind]

theorem mapError_eq_error {δ : Type} {x : Except ε α} {f : ε → δ} {d : δ} :
    x.mapError f = .error d ↔ ∃ e, x = .error e ∧ f e = d := by
  cases x <;> simp [Except.mapError]

theorem map_eq_ok {x : Except ε α} {f : α → β} {b : β} :
    x.map f = .ok b ↔ ∃ a, x = .ok a ∧ f a = b := by
  cases x <;> simp [Except.map]

namespace Failure

@[simp] theorem ofRefusal_ok (a : α) : (ofRefusal (.ok a) : Except (Failure ε) α) = .ok a := rfl

@[simp] theorem ofRefusal_error (e : ε) :
    (ofRefusal (.error e) : Except (Failure ε) α) = .error (.refused e) := rfl

@[simp] theorem ofFault_ok (a : α) : (ofFault (.ok a) : Except (Failure ε) α) = .ok a := rfl

@[simp] theorem ofFault_error (c : Fault) :
    (ofFault (.error c) : Except (Failure ε) α) = .error (.fault c) := rfl

@[simp] theorem ofRefusal_eq_refused {r : Except ε α} {e : ε} :
    ofRefusal r = .error (.refused e) ↔ r = .error e := by
  cases r <;> simp [ofRefusal]

@[simp] theorem ofRefusal_ne_fault {r : Except ε α} {c : Fault} :
    ofRefusal r ≠ .error (.fault c) := by
  cases r <;> simp [ofRefusal]

@[simp] theorem ofFault_eq_fault {r : Except Fault α} {c : Fault} :
    (ofFault r : Except (Failure ε) α) = .error (.fault c) ↔ r = .error c := by
  cases r <;> simp [ofFault]

@[simp] theorem mapReason_eq_fault {δ : Type} {f : ε → δ} {r : Except (Failure ε) α} {c : Fault} :
    mapReason f r = .error (.fault c) ↔ r = .error (.fault c) := by
  rcases r with (_ | _) | _ <;> simp [mapReason]

/-- An outcome that is an answer under a condition and a fault otherwise is no refusal. -/
theorem answered_iff {r : Except (Failure ε) α} {p : Prop} {cause : Fault}
    (h : (p ∧ ∃ a, r = .ok a) ∨ (¬ p ∧ r = .error (.fault cause))) :
    ((∃ a, r = .ok a) ↔ p) ∧ ∀ e, r ≠ .error (.refused e) := by
  rcases h with ⟨hp, a, rfl⟩ | ⟨hp, rfl⟩
  · exact ⟨iff_of_true ⟨a, rfl⟩ hp, fun _ => nofun⟩
  · exact ⟨iff_of_false nofun hp, fun _ => nofun⟩

end Failure

/-! ## Lists of steps -/

theorem mapM_eq_ok {f : α → Except ε β} {l : List α} {r : List β} :
    l.mapM f = .ok r ↔ List.Forall₂ (fun a b => f a = .ok b) l r := by
  induction l generalizing r with
  | nil => simp [eq_comm]
  | cons a l ih =>
    rw [List.mapM_cons, bind_eq_ok, List.forall₂_cons_left_iff]
    constructor
    · rintro ⟨b, hb, h⟩
      obtain ⟨bs, hbs, h⟩ := bind_eq_ok.1 h
      cases h
      exact ⟨b, bs, hb, ih.1 hbs, rfl⟩
    · rintro ⟨b, bs, hb, hbs, rfl⟩
      exact ⟨b, hb, bind_eq_ok.2 ⟨bs, ih.2 hbs, rfl⟩⟩

theorem mapM_eq_some {f : α → Option β} {l : List α} {r : List β} :
    l.mapM f = some r ↔ List.Forall₂ (fun a b => f a = some b) l r := by
  induction l generalizing r with
  | nil => simp [eq_comm]
  | cons a l ih =>
    rw [List.mapM_cons, List.forall₂_cons_left_iff]
    simp only [Option.bind_eq_bind, Option.bind_eq_some_iff, ih, Option.pure_def, Option.some.injEq]
    constructor
    · rintro ⟨b, hb, bs, hbs, rfl⟩
      exact ⟨b, bs, hb, hbs, rfl⟩
    · rintro ⟨b, bs, hb, hbs, rfl⟩
      exact ⟨b, hb, bs, hbs, rfl⟩

/-- Steps that all have an answer give the answers in order. -/
theorem mapM_eq_filterMap {f : α → Except ε β} {g : α → Option β} {l : List α}
    (h : ∀ a ∈ l, ∃ b, g a = some b ∧ f a = .ok b) : l.mapM f = .ok (l.filterMap g) := by
  induction l with
  | nil => rfl
  | cons a l ih =>
      obtain ⟨⟨b, hg, hf⟩, hl⟩ := List.forall_mem_cons.1 h
      rw [List.mapM_cons, hf, ok_bind, ih hl, ok_bind, List.filterMap_cons, hg]
      rfl

theorem map_eq_pair {f : α → β} {l : List α} {b c : β} (h : l.map f = [b, c]) :
    ∃ x y, l = [x, y] ∧ f x = b ∧ f y = c := by
  obtain ⟨x, rest, rfl, hx, h⟩ := List.map_eq_cons_iff.1 h
  obtain ⟨y, rfl, hy⟩ := List.map_eq_singleton_iff.1 h
  exact ⟨x, y, rfl, hx, hy⟩

theorem forall₂_singleton {R : α → β → Prop} {a : α} {l : List β}
    (h : List.Forall₂ R [a] l) : ∃ b, l = [b] ∧ R a b := by
  cases h with
  | @cons _ b _ _ hab hnil =>
      cases hnil
      exact ⟨b, rfl, hab⟩

theorem forall₂_pair {R : α → β → Prop} {a b : α} {l : List β}
    (h : List.Forall₂ R [a, b] l) : ∃ c d, l = [c, d] ∧ R a c ∧ R b d := by
  cases h with
  | @cons _ c _ _ hac hrest =>
      obtain ⟨d, rfl, hbd⟩ := forall₂_singleton hrest
      exact ⟨c, d, rfl, hac, hbd⟩

/-- All items have what the first one has exactly if any two of them have it in common. -/
theorem forall_mem_eq_iff {κ : α → β} {a : α} {l : List α} :
    (∀ b ∈ l, κ b = κ a) ↔ ∀ b ∈ a :: l, ∀ c ∈ a :: l, κ b = κ c := by
  constructor
  · intro h b hb c hc
    have hfirst : ∀ x ∈ a :: l, κ x = κ a := List.forall_mem_cons.2 ⟨rfl, h⟩
    exact (hfirst b hb).trans (hfirst c hc).symm
  · intro h b hb
    exact h b (List.mem_cons_of_mem a hb) a List.mem_cons_self

/-- Each item of the second list is related to one of the first. -/
theorem exists_of_mem_forall₂ {R : α → β → Prop} {l : List α} {r : List β}
    (h : List.Forall₂ R l r) {b : β} (hb : b ∈ r) : ∃ a ∈ l, R a b := by
  induction h with
  | nil => simp at hb
  | @cons a b' l r hab _ ih =>
      rcases List.mem_cons.1 hb with rfl | hb
      · exact ⟨a, by simp, hab⟩
      · obtain ⟨a', ha', h⟩ := ih hb
        exact ⟨a', by simp [ha'], h⟩

/-- A relation item by item follows from another one on the items of the lists. -/
theorem forall₂_imp_mem {R S : α → β → Prop} {l : List α} {r : List β} (h : List.Forall₂ R l r)
    (hS : ∀ a ∈ l, ∀ b ∈ r, R a b → S a b) : List.Forall₂ S l r := by
  induction h with
  | nil => exact .nil
  | @cons a b l r hab _ ih =>
      refine .cons (hS a (by simp) b (by simp) hab) (ih fun x hx y hy => ?_)
      exact hS x (by simp [hx]) y (by simp [hy])

theorem forall₂_imp {R S : α → β → Prop} {l : List α} {r : List β} (h : List.Forall₂ R l r)
    (hS : ∀ a ∈ l, ∀ b, R a b → S a b) : List.Forall₂ S l r :=
  forall₂_imp_mem h fun a ha b _ => hS a ha b

/-- Relations between three lists, one after the other. -/
theorem forall₂_comp {R : α → β → Prop} {S : β → γ → Prop} {T : α → γ → Prop} {l : List α}
    {m : List β} {r : List γ} (hR : List.Forall₂ R l m) (hS : List.Forall₂ S m r)
    (hT : ∀ a ∈ l, ∀ b c, R a b → S b c → T a c) : List.Forall₂ T l r := by
  induction hR generalizing r with
  | nil =>
      cases hS
      exact .nil
  | @cons a b l m hab _ ih =>
      cases hS with
      | cons hbc hS =>
          exact .cons (hT a (by simp) _ _ hab hbc) (ih hS fun x hx => hT x (by simp [hx]))

/-- Lists whose items have the same images have the same image. -/
theorem map_congr_forall₂ {f : α → γ} {g : β → γ} {l : List α} {r : List β}
    (h : List.Forall₂ (fun a b => f a = g b) l r) : l.map f = r.map g := by
  induction h with
  | nil => rfl
  | cons hab _ ih => rw [List.map_cons, List.map_cons, hab, ih]

/-- Lists of steps with the same outcomes have the same outcome. -/
theorem mapM_congr {m : Type → Type} [Monad m] [LawfulMonad m] {f : α → m γ} {g : β → m γ}
    {l : List α} {r : List β} (h : List.Forall₂ (fun a b => f a = g b) l r) :
    l.mapM f = r.mapM g := by
  induction h with
  | nil => simp
  | cons hab _ ih => rw [List.mapM_cons, List.mapM_cons, hab, ih]

theorem take_append_cons_drop {l : List α} {i : Nat} {a : α} (h : l[i]? = some a) :
    l = l.take i ++ a :: l.drop (i + 1) := by
  obtain ⟨hi, rfl⟩ := List.getElem?_eq_some_iff.1 h
  rw [← List.drop_eq_getElem_cons hi, List.take_append_drop]

/-- A list of steps fails with the first failure. -/
theorem mapM_eq_error {f : α → Except ε β} {l : List α} {e : ε} :
    l.mapM f = .error e ↔
      ∃ before a after, l = before ++ a :: after ∧ (∀ b ∈ before, ∃ c, f b = .ok c)
        ∧ f a = .error e := by
  induction l with
  | nil => simp
  | cons a l ih =>
    rw [List.mapM_cons, bind_eq_error]
    constructor
    · rintro (h | ⟨b, hb, h⟩)
      · exact ⟨[], a, l, rfl, by simp, h⟩
      · rcases bind_eq_error.1 h with h | ⟨_, _, h⟩
        · obtain ⟨before, x, after, rfl, hbefore, hx⟩ := ih.1 h
          refine ⟨a :: before, x, after, rfl, ?_, hx⟩
          intro y hy
          rcases List.mem_cons.1 hy with rfl | hy
          · exact ⟨b, hb⟩
          · exact hbefore y hy
        · cases h
    · rintro ⟨before, x, after, hl, hbefore, hx⟩
      cases before with
      | nil =>
        cases hl
        exact .inl hx
      | cons y before =>
        cases hl
        obtain ⟨c, hc⟩ := hbefore a (by simp)
        have hrest := ih.2 ⟨before, x, after, rfl, fun b hb => hbefore b (by simp [hb]), hx⟩
        exact .inr ⟨c, hc, bind_eq_error.2 (.inl hrest)⟩

/-- Steps for the numbers below a bound fail at the first number whose step does. -/
theorem mapM_range_eq_error {f : Nat → Except ε β} {k : Nat} {e : ε} :
    (List.range k).mapM f = .error e ↔
      ∃ n < k, (∀ m < n, ∃ b, f m = .ok b) ∧ f n = .error e := by
  rw [mapM_eq_error]
  constructor
  · rintro ⟨before, n, after, hrange, hbefore, hfail⟩
    rw [List.range_eq_range', List.range'_eq_append_iff] at hrange
    obtain ⟨j, -, rfl, hrest⟩ := hrange
    obtain ⟨rfl, hlt, -⟩ := List.range'_eq_cons_iff.1 hrest.symm
    refine ⟨0 + j * 1, by omega, fun m hm => hbefore m ?_, hfail⟩
    rw [List.mem_range'_1]
    omega
  · rintro ⟨n, hn, hbefore, hfail⟩
    refine ⟨List.range n, n, List.range' (n + 1) (k - n - 1), ?_, ?_, hfail⟩
    · rw [List.range_eq_range', List.range_eq_range', ← List.range'_succ,
        List.range'_eq_append_iff]
      exact ⟨n, Nat.le_of_lt hn, rfl, by congr 1 <;> omega⟩
    · intro m hm
      exact hbefore m (List.mem_range.1 hm)

end NodalAlgebra
