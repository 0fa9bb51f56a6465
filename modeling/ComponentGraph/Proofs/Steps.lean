/-
  ComponentGraph.Proofs.Steps
  ────────────────────────────────
  **STEPS THAT CAN FAIL.**

  Reading goes in steps, and the first one that fails ends it.  What a series
  of steps comes to is taken apart step by step:

      bind_eq_ok_iff — what two steps give
      guard_eq_ok_iff — what a check and a step give
      isOk_mapM      — a list is read just if each of its items is
      mapError_eq_error_iff — where an error comes from that was renamed
-/

namespace ComponentGraph

section Steps

variable {ε η α β : Type}

/-! ## §1. Success. -/

theorem isOk_iff {x : Except ε α} : x.isOk ↔ ∃ a, x = .ok a := by
  cases x <;> simp [Except.isOk, Except.toBool]

@[simp] theorem isOk_pure (a : α) : (pure a : Except ε α).isOk := rfl

/-- A step that only asks for something succeeds just if it is so. -/
theorem isOk_ite (b : Bool) (a : α) (e : ε) :
    (if b = true then Except.ok a else .error e).isOk = b := by
  cases b <;> rfl

theorem isOk_bind (x : Except ε α) (f : α → Except ε β) :
    (x >>= f).isOk ↔ ∃ a, x = .ok a ∧ (f a).isOk := by
  cases x <;> simp [bind, Except.bind, Except.isOk, Except.toBool]

/-- A list is read just if each of its items is. -/
theorem isOk_mapM (f : α → Except ε β) (xs : List α) :
    (xs.mapM f).isOk ↔ ∀ x ∈ xs, (f x).isOk := by
  induction xs with
  | nil => simp [Except.isOk, Except.toBool, pure, Except.pure]
  | cons x xs ih =>
    have hlast : ∀ y, (xs.mapM f >>= fun ys => pure (y :: ys)).isOk ↔ (xs.mapM f).isOk := by
      intro y
      cases xs.mapM f <;> rfl
    -- once the item is read, all depends on the others
    rw [List.mapM_cons, isOk_bind, List.forall_mem_cons, ← ih]
    simp only [hlast, isOk_iff (x := f x)]
    exact exists_and_right

theorem bind_eq_ok_iff {x : Except ε α} {f : α → Except ε β} {b : β} :
    x >>= f = .ok b ↔ ∃ a, x = .ok a ∧ f a = .ok b := by
  cases x <;> simp [bind, Except.bind]

/-- What stands behind a check is reached just if nothing is wrong. -/
theorem guard_eq_ok_iff {c : Prop} [Decidable c] {e : ε} {f : α → Except ε β} {x : Except ε β}
    {b : β} : (if c then Except.error e >>= f else x) = .ok b ↔ ¬ c ∧ x = .ok b := by
  by_cases hc : c
  · rw [if_pos hc]
    exact iff_of_false nofun fun h => h.1 hc
  · rw [if_neg hc]
    exact (and_iff_right hc).symm

/-! ## §2. Errors under another name. -/

@[simp] theorem mapError_ok (f : ε → η) (a : α) :
    (Except.ok a : Except ε α).mapError f = .ok a := rfl

@[simp] theorem mapError_error (f : ε → η) (e : ε) :
    (Except.error e : Except ε α).mapError f = .error (f e) := rfl

theorem mapError_eq_ok_iff {x : Except ε α} {f : ε → η} {a : α} :
    x.mapError f = .ok a ↔ x = .ok a := by
  cases x <;> simp

theorem mapError_eq_error_iff {x : Except ε α} {f : ε → η} {e : η} :
    x.mapError f = .error e ↔ ∃ cause, x = .error cause ∧ e = f cause := by
  cases x <;> simp [eq_comm]

end Steps

end ComponentGraph
