/-
  ComponentGraph.Proofs.Text.Units
  ────────────────────────────────
  **THE ORDER OF TEXTS IS TOTAL.**

  Words are compared one by one, so lists of words are ordered as words are.
  The units of a text determine it (`units_injective`): a unit that begins a
  pair lies among the surrogates, where no character is.  So two texts that
  stand before or at each other are one (`eq_of_atOrBefore`).
-/
import ComponentGraph.Text.Units
import Mathlib.Tactic.Common

namespace ComponentGraph.Text

/-! ## §1. Words. -/

theorem unitsLe_cons_iff {a b : Nat} {as bs : List Nat} :
    unitsLe (a :: as) (b :: bs) ↔ a < b ∨ a = b ∧ unitsLe as bs := by
  simp [unitsLe]

theorem unitsLe_total (as bs : List Nat) : unitsLe as bs ∨ unitsLe bs as := by
  induction as generalizing bs with
  | nil => exact .inl rfl
  | cons a as ih =>
    cases bs with
    | nil => exact .inr rfl
    | cons b bs =>
      rw [unitsLe_cons_iff, unitsLe_cons_iff]
      rcases Nat.lt_trichotomy a b with h | rfl | h
      · exact .inl (.inl h)
      · exact (ih bs).imp (fun h => .inr ⟨rfl, h⟩) fun h => .inr ⟨rfl, h⟩
      · exact .inr (.inl h)

theorem unitsLe_trans {as bs cs : List Nat} (hab : unitsLe as bs) (hbc : unitsLe bs cs) :
    unitsLe as cs := by
  induction as generalizing bs cs with
  | nil => rfl
  | cons a as ih =>
    cases bs with
    | nil => contradiction
    | cons b bs =>
      cases cs with
      | nil => contradiction
      | cons c cs =>
        rw [unitsLe_cons_iff] at hab hbc ⊢
        rcases hab with hab | ⟨rfl, hab⟩ <;> rcases hbc with hbc | ⟨rfl, hbc⟩
        · exact .inl (by omega)
        · exact .inl hab
        · exact .inl hbc
        · exact .inr ⟨rfl, ih hab hbc⟩

theorem eq_of_unitsLe {as bs : List Nat} (hab : unitsLe as bs) (hba : unitsLe bs as) :
    as = bs := by
  induction as generalizing bs with
  | nil =>
    cases bs with
    | nil => rfl
    | cons b bs => contradiction
  | cons a as ih =>
    cases bs with
    | nil => contradiction
    | cons b bs =>
      rw [unitsLe_cons_iff] at hab hba
      rcases hab with hab | ⟨rfl, hab⟩ <;> rcases hba with hba | ⟨he, hba⟩
      · omega
      · omega
      · omega
      · rw [ih hab hba]

/-! ## §2. Units. -/

/-- **The first units of a text are those of its first character**, and no others
begin so. -/
theorem unitsOfChar_append_inj {c d : Char} {as bs : List Nat}
    (h : unitsOfChar c ++ as = unitsOfChar d ++ bs) : c = d ∧ as = bs := by
  have hc : c.toNat < 0xD800 ∨ 0xDFFF < c.toNat ∧ c.toNat < 0x110000 := c.valid
  have hd : d.toNat < 0xD800 ∨ 0xDFFF < d.toNat ∧ d.toNat < 0x110000 := d.valid
  suffices hn : c.toNat = d.toNat ∧ as = bs from ⟨Char.toNat_inj.1 hn.1, hn.2⟩
  unfold unitsOfChar at h
  by_cases hcs : c.toNat < 0x10000 <;> by_cases hds : d.toNat < 0x10000 <;>
    simp only [hcs, hds, if_true, if_false, List.cons_append, List.nil_append,
      List.cons.injEq] at h
  · exact h
  · -- a character is no surrogate
    omega
  · omega
  · obtain ⟨hhigh, hlow, hrest⟩ := h
    exact ⟨by omega, hrest⟩

theorem unitsOfChar_ne_nil (c : Char) : unitsOfChar c ≠ [] := by
  unfold unitsOfChar
  simp only
  split <;> simp

theorem flatMap_unitsOfChar_injective {cs ds : List Char}
    (h : cs.flatMap unitsOfChar = ds.flatMap unitsOfChar) : cs = ds := by
  induction cs generalizing ds with
  | nil =>
    cases ds with
    | nil => rfl
    | cons d ds => simp [unitsOfChar_ne_nil] at h
  | cons c cs ih =>
    cases ds with
    | nil => simp [unitsOfChar_ne_nil] at h
    | cons d ds =>
      rw [List.flatMap_cons, List.flatMap_cons] at h
      obtain ⟨rfl, hrest⟩ := unitsOfChar_append_inj h
      rw [ih hrest]

/-- **The units of a text determine it.** -/
theorem units_injective {a b : String} (h : units a = units b) : a = b :=
  String.toList_injective (flatMap_unitsOfChar_injective h)

/-! ## §3. Texts. -/

theorem atOrBefore_total (a b : String) : atOrBefore a b ∨ atOrBefore b a :=
  unitsLe_total (units a) (units b)

theorem atOrBefore_trans {a b c : String} (hab : atOrBefore a b) (hbc : atOrBefore b c) :
    atOrBefore a c := unitsLe_trans hab hbc

theorem eq_of_atOrBefore {a b : String} (hab : atOrBefore a b) (hba : atOrBefore b a) : a = b :=
  units_injective (eq_of_unitsLe hab hba)

end ComponentGraph.Text
