/-
  ComponentGraph.Proofs.Graph.Walk
  ────────────────────────────────
  **WHAT A WALK MEETS.**

  The stops of a walk say everything about it:

      nodup_firsts     — no key is met for the first time twice
      waiting_met      — whatever waits is met
      below_met        — whatever is below a place that is entered is met
      again_met        — a key that is met again was met before
      place_stops      — what waits at first, and is kept going down, is all
                         that is met
      stops_forall₂    — walks over related places stop at related places
      length_stops     — how many stops there are
-/
import ComponentGraph.Graph.Walk
import Mathlib.Algebra.BigOperators.Group.List.Basic
import Mathlib.Algebra.GroupWithZero.Nat
import Mathlib.Data.List.Forall2
import Mathlib.Data.List.Nodup

namespace ComponentGraph

/-! ## §1. First stops. -/

namespace Stop

variable {α : Type}

/-- The place of a stop. -/
def place : Stop α → α
  | .first p => p
  | .again p => p

@[simp] theorem firsts_nil : firsts ([] : List (Stop α)) = [] := rfl

@[simp] theorem firsts_cons_first (p : α) (stops : List (Stop α)) :
    firsts (.first p :: stops) = p :: firsts stops := rfl

@[simp] theorem firsts_cons_again (p : α) (stops : List (Stop α)) :
    firsts (.again p :: stops) = firsts stops := rfl

@[simp] theorem firsts_append (before after : List (Stop α)) :
    firsts (before ++ after) = firsts before ++ firsts after := List.filterMap_append

theorem mem_firsts {p : α} {stops : List (Stop α)} : p ∈ firsts stops ↔ .first p ∈ stops := by
  rw [firsts, List.mem_filterMap]
  constructor
  · rintro ⟨s, hs, hp⟩
    cases s with
    | first q =>
      obtain rfl : q = p := Option.some.inj hp
      exact hs
    | again q => exact absurd hp (by simp [first?])
  · intro h
    exact ⟨_, h, rfl⟩

/-- The stop at another place. -/
def map {β : Type} (f : α → β) : Stop α → Stop β
  | .first p => .first (f p)
  | .again p => .again (f p)

/-- Are these stops of one kind, at related places? -/
inductive Rel {β : Type} (R : α → β → Prop) : Stop α → Stop β → Prop where
  | first {p : α} {q : β} : R p q → Rel R (.first p) (.first q)
  | again {p : α} {q : β} : R p q → Rel R (.again p) (.again q)

end Stop

/-! ## §2. Walks. -/

namespace Walk

open Stop (firsts place)

/-- A key that counts as seen after `a`, or is met later, is seen before or met
from `a` on. -/
theorem met_cons {κ : Type} {k a : κ} {seen met : List κ} (h : k ∈ a :: seen ∨ k ∈ met) :
    k ∈ seen ∨ k ∈ a :: met := by
  rcases h with h | h
  · rcases List.mem_cons.1 h with rfl | h
    · exact .inr List.mem_cons_self
    · exact .inl h
  · exact .inr (List.mem_cons_of_mem _ h)

variable {α κ : Type} [DecidableEq κ]
variable (key : α → κ) (below : α → List α) (known seen : List κ) (waiting : List α)

section Steps

variable {key below known seen waiting} {p : α}

theorem stops_cons_again (h : key p ∈ seen) :
    stops key below known seen (p :: waiting) = .again p :: stops key below known seen waiting := by
  rw [stops, if_pos h]

theorem stops_cons_first (hs : key p ∉ seen) (hk : key p ∈ known) :
    stops key below known seen (p :: waiting)
      = .first p :: stops key below known (key p :: seen) (below p ++ waiting) := by
  rw [stops, if_neg hs, if_pos hk]

theorem stops_cons_unknown (hs : key p ∉ seen) (hk : key p ∉ known) :
    stops key below known seen (p :: waiting) = stops key below known seen waiting := by
  rw [stops, if_neg hs, if_neg hk]

end Steps

/-- What is met for the first time is known, and was not seen. -/
theorem key_firsts : ∀ p ∈ firsts (stops key below known seen waiting),
    key p ∈ known ∧ key p ∉ seen := by
  fun_induction stops key below known seen waiting with
  | case1 seen => simp
  | case2 seen p waiting hs ih => simpa using ih
  | case3 seen p waiting hs hk ih =>
    intro q hq
    rw [Stop.firsts_cons_first, List.mem_cons] at hq
    rcases hq with rfl | hq
    · exact ⟨hk, hs⟩
    · exact ⟨(ih q hq).1, fun h => (ih q hq).2 (List.mem_cons_of_mem _ h)⟩
  | case4 seen p waiting hs hk ih => exact ih

/-- **No key is met for the first time twice.** -/
theorem nodup_firsts : ((firsts (stops key below known seen waiting)).map key).Nodup := by
  fun_induction stops key below known seen waiting with
  | case1 seen => simp
  | case2 seen p waiting hs ih => simpa using ih
  | case3 seen p waiting hs hk ih =>
    rw [Stop.firsts_cons_first, List.map_cons, List.nodup_cons]
    refine ⟨?_, ih⟩
    -- the key of the new place counts as seen from here on
    intro hm
    obtain ⟨q, hq, he⟩ := List.mem_map.1 hm
    exact (key_firsts key below known _ _ q hq).2 (by simp [he])
  | case4 seen p waiting hs hk ih => exact ih

/-- Whatever waits is met, if it is known. -/
theorem waiting_met : ∀ p ∈ waiting, key p ∈ known →
    key p ∈ seen ∨ key p ∈ (firsts (stops key below known seen waiting)).map key := by
  fun_induction stops key below known seen waiting with
  | case1 seen => simp
  | case2 seen p waiting hs ih =>
    intro q hq hk
    rcases List.mem_cons.1 hq with rfl | hq
    · exact .inl hs
    · simpa using ih q hq hk
  | case3 seen p waiting hs hk ih =>
    intro q hq hkq
    rw [Stop.firsts_cons_first, List.map_cons]
    rcases List.mem_cons.1 hq with rfl | hq
    · exact .inr List.mem_cons_self
    · -- it still waits, behind what is below the new place
      exact met_cons (ih q (List.mem_append_right _ hq) hkq)
  | case4 seen p waiting hs hk ih =>
    intro q hq hkq
    rcases List.mem_cons.1 hq with rfl | hq
    · exact absurd hkq hk
    · exact ih q hq hkq

/-- Whatever is below a place that is entered is met, if it is known. -/
theorem below_met : ∀ p ∈ firsts (stops key below known seen waiting),
    ∀ q ∈ below p, key q ∈ known →
    key q ∈ seen ∨ key q ∈ (firsts (stops key below known seen waiting)).map key := by
  fun_induction stops key below known seen waiting with
  | case1 seen => simp
  | case2 seen p waiting hs ih => simpa using ih
  | case3 seen p waiting hs hk ih =>
    intro x hx q hq hkq
    rw [Stop.firsts_cons_first] at hx ⊢
    rw [List.map_cons]
    rcases List.mem_cons.1 hx with rfl | hx
    · -- below the new place: it waits next
      exact met_cons (waiting_met key below known _ _ q (List.mem_append_left _ hq) hkq)
    · exact met_cons (ih x hx q hq hkq)
  | case4 seen p waiting hs hk ih => exact ih

/-- **What is true of all that waits, and goes down from a place to those
below it, is true of every stop.** -/
theorem place_stops {P : α → Prop} (hdown : ∀ p, P p → ∀ q ∈ below p, P q)
    (hwait : ∀ p ∈ waiting, P p) :
    ∀ s ∈ stops key below known seen waiting, P s.place := by
  fun_induction stops key below known seen waiting with
  | case1 seen => simp
  | case2 seen p waiting hs ih =>
    intro s hm
    rcases List.mem_cons.1 hm with rfl | hm
    · exact hwait p List.mem_cons_self
    · exact ih (fun q hq => hwait q (List.mem_cons_of_mem _ hq)) s hm
  | case3 seen p waiting hs hk ih =>
    have hp := hwait p List.mem_cons_self
    intro s hm
    rcases List.mem_cons.1 hm with rfl | hm
    · exact hp
    · refine ih (fun q hq => ?_) s hm
      rcases List.mem_append.1 hq with hq | hq
      · exact hdown p hp q hq
      · exact hwait q (List.mem_cons_of_mem _ hq)
  | case4 seen p waiting hs hk ih =>
    exact ih fun q hq => hwait q (List.mem_cons_of_mem _ hq)

/-- **A key that is met again was met before.** -/
theorem again_met {before after : List (Stop α)} {p : α}
    (h : stops key below known seen waiting = before ++ .again p :: after) :
    key p ∈ seen ∨ key p ∈ (firsts before).map key := by
  fun_induction stops key below known seen waiting generalizing before with
  | case1 seen => simp at h
  | case2 seen q waiting hs ih =>
    cases before with
    | nil =>
      obtain rfl : q = p := Stop.again.inj (List.cons.inj h).1
      exact .inl hs
    | cons s before =>
      rw [List.cons_append, List.cons.injEq] at h
      obtain ⟨rfl, h⟩ := h
      simpa using ih h
  | case3 seen q waiting hs hk ih =>
    cases before with
    | nil =>
      -- the walk enters here, so its next stop is no second meeting
      exact absurd (List.cons.inj h).1 (by simp)
    | cons s before =>
      rw [List.cons_append, List.cons.injEq] at h
      obtain ⟨rfl, h⟩ := h
      rw [Stop.firsts_cons_first, List.map_cons]
      exact met_cons (ih h)
  | case4 seen q waiting hs hk ih => exact ih h

/-! ## §3. Walks side by side. -/

/-- A walk goes by what was seen, not by the order in which it was. -/
theorem stops_congr {seen other : List κ} (h : ∀ k, k ∈ seen ↔ k ∈ other) (waiting : List α) :
    stops key below known seen waiting = stops key below known other waiting := by
  fun_induction stops key below known seen waiting generalizing other with
  | case1 seen => rw [stops]
  | case2 seen p waiting hs ih => rw [stops_cons_again ((h _).1 hs), ih h]
  | case3 seen p waiting hs hk ih =>
    have hcons : ∀ k, k ∈ key p :: seen ↔ k ∈ key p :: other := by
      intro k
      rw [List.mem_cons, List.mem_cons, h k]
    rw [stops_cons_first (fun ho => hs ((h _).2 ho)) hk, ih hcons]
  | case4 seen p waiting hs hk ih =>
    rw [stops_cons_unknown (fun ho => hs ((h _).2 ho)) hk, ih h]

/-- **Walks over related places stop at related places.** -/
theorem stops_forall₂ {β : Type} {key' : β → κ} {below' : β → List β} {R : α → β → Prop}
    (hkey : ∀ p q, R p q → key p = key' q)
    (hbelow : ∀ p q, R p q → List.Forall₂ R (below p) (below' q)) {waiting' : List β}
    (h : List.Forall₂ R waiting waiting') :
    List.Forall₂ (Stop.Rel R) (stops key below known seen waiting)
      (stops key' below' known seen waiting') := by
  fun_induction stops key below known seen waiting generalizing waiting' with
  | case1 seen =>
    cases h
    rw [stops]
    exact .nil
  | case2 seen p waiting hs ih =>
    cases h with
    | cons hpq h =>
      rw [hkey _ _ hpq] at hs
      rw [stops_cons_again hs]
      exact .cons (.again hpq) (ih h)
  | case3 seen p waiting hs hk ih =>
    cases h with
    | @cons _ q _ rest hpq h =>
      have happ : List.Forall₂ R (below p ++ waiting) (below' q ++ rest) :=
        List.rel_append (hbelow _ _ hpq) h
      rw [hkey _ _ hpq] at hs hk
      rw [stops_cons_first hs hk, ← hkey _ _ hpq]
      exact .cons (.first hpq) (ih happ)
  | case4 seen p waiting hs hk ih =>
    cases h with
    | cons hpq h =>
      rw [hkey _ _ hpq] at hs hk
      rw [stops_cons_unknown hs hk]
      exact ih h

/-- A walk over images stops at the images. -/
theorem map_stops {β : Type} {key' : β → κ} {below' : β → List β} (f : α → β)
    (hkey : ∀ p, key p = key' (f p)) (hbelow : ∀ p, (below p).map f = below' (f p)) :
    (stops key below known seen waiting).map (Stop.map f)
      = stops key' below' known seen (waiting.map f) := by
  have himage : ∀ places : List α, List.Forall₂ (fun p q => f p = q) places (places.map f) := by
    intro places
    rw [List.forall₂_map_right_iff]
    exact List.forall₂_same.2 fun _ _ => rfl
  have hpoint : ∀ p q, f p = q → key p = key' q := by
    rintro p q rfl
    exact hkey p
  have hrow : ∀ p q, f p = q → List.Forall₂ (fun p q => f p = q) (below p) (below' q) := by
    rintro p q rfl
    rw [← hbelow]
    exact himage _
  have h := stops_forall₂ key below known seen waiting hpoint hrow (himage waiting)
  rw [← List.forall₂_eq_eq_eq, List.forall₂_map_left_iff]
  refine h.imp fun s t hst => ?_
  cases hst with
  | first hpq => exact congrArg Stop.first hpq
  | again hpq => exact congrArg Stop.again hpq

/-- **There is a stop for all that waits, and one for each place below one that
is entered**, if all of them are known. -/
theorem length_stops (hknown : ∀ p, key p ∈ known) :
    (stops key below known seen waiting).length = waiting.length
      + ((firsts (stops key below known seen waiting)).map fun p => (below p).length).sum := by
  fun_induction stops key below known seen waiting with
  | case1 seen => simp
  | case2 seen p waiting hs ih =>
    rw [Stop.firsts_cons_again, List.length_cons, List.length_cons, ih]
    omega
  | case3 seen p waiting hs hk ih =>
    rw [Stop.firsts_cons_first, List.map_cons, List.sum_cons, List.length_cons, ih,
      List.length_append, List.length_cons]
    omega
  | case4 seen p waiting hs hk ih => exact absurd (hknown p) hk

end Walk

end ComponentGraph
