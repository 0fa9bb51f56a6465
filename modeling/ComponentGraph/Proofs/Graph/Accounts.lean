/-
  ComponentGraph.Proofs.Graph.Accounts
  ────────────────────────────────
  **WHAT THE COMPONENTS OF A GRAPH STAND FOR.**

  A graph accounts for a list of things if each of its components stands for
  one of them, no two for the same, and none is left out (`Graph.Accounts`).
  Graphs side by side account for both lists (`Accounts.append`), and a
  component above a graph adds one thing to its list (`Accounts.above`).
-/
import ComponentGraph.Proofs.Graph.Embedding
import Mathlib.Data.Fin.Tuple.Basic

namespace ComponentGraph

namespace Graph

variable {α : Type} {m n : Nat} {g : Graph m} {h : Graph n}
variable {L M : α → Component → Prop}

/-- Does every component stand for one thing of a list, where `L` says which
component a thing must become? -/
structure Accounts (g : Graph n) (L : α → Component → Prop) (origin : Fin n → α) : Prop where
  /-- No two components stand for the same thing. -/
  injective : Function.Injective origin
  /-- A component is what it must be. -/
  listed : ∀ i, L (origin i) (g.component i)
  /-- Nothing is left out. -/
  placed : ∀ o c, L o c → ∃ i, origin i = o

theorem Accounts.congr {origin : Fin n → α} (ha : h.Accounts L origin)
    (hl : ∀ o c, L o c ↔ M o c) : h.Accounts M origin where
  injective := ha.injective
  listed i := (hl _ _).1 (ha.listed i)
  placed o c hm := ha.placed o c ((hl _ _).2 hm)

theorem accounts_empty : empty.Accounts (fun (_ : α) _ => False) Fin.elim0 where
  injective i := i.elim0
  listed i := i.elim0
  placed _ _ hf := hf.elim

/-- **Graphs side by side account for what one or the other accounts for**, if
nothing stands in both lists. -/
theorem Accounts.append {first : Fin m → α} {second : Fin n → α} (hg : g.Accounts L first)
    (hh : h.Accounts M second) (hdisjoint : ∀ o c d, L o c → ¬ M o d) :
    (g.append h).Accounts (fun o c => L o c ∨ M o c) (Fin.append first second) where
  injective := by
    refine Fin.append_injective_iff.2 ⟨hg.injective, hh.injective, fun i j he => ?_⟩
    have hm := hh.listed j
    rw [← he] at hm
    exact hdisjoint _ _ _ (hg.listed i) hm
  listed := by
    intro i
    cases i using Fin.addCases with
    | left i =>
      rw [Fin.append_left, (embeds_append_left g h).component]
      exact .inl (hg.listed i)
    | right i =>
      rw [Fin.append_right, (embeds_append_right g h).component]
      exact .inr (hh.listed i)
  placed := by
    rintro o c (hl | hm)
    · obtain ⟨i, rfl⟩ := hg.placed o c hl
      exact ⟨Fin.castAdd n i, Fin.append_left ..⟩
    · obtain ⟨i, rfl⟩ := hh.placed o c hm
      exact ⟨Fin.natAdd m i, Fin.append_right ..⟩

/-- **A component above a graph adds one thing to what it accounts for.** -/
theorem Accounts.above {origin : Fin n → α} (hh : h.Accounts L origin) (top : α)
    (c : Component) (below : List (Fin n)) (hnew : ∀ d, ¬ L top d) :
    (h.above c below).Accounts (fun o d => o = top ∧ d = c ∨ L o d)
      (Fin.append (fun _ : Fin 1 => top) origin) where
  injective := by
    refine Fin.append_injective_iff.2
      ⟨Function.injective_of_subsingleton _, hh.injective, fun _ j he => ?_⟩
    have hl := hh.listed j
    rw [← he] at hl
    exact hnew _ hl
  listed := by
    intro i
    cases i using Fin.addCases with
    | left i =>
      rw [Fin.append_left, Subsingleton.elim i 0]
      exact .inl ⟨rfl, component_aboveRoot c h below⟩
    | right i =>
      rw [Fin.append_right, (embeds_above c h below).component]
      exact .inr (hh.listed i)
  placed := by
    rintro o d (⟨rfl, -⟩ | hl)
    · exact ⟨Fin.castAdd n 0, Fin.append_left ..⟩
    · obtain ⟨i, rfl⟩ := hh.placed o d hl
      exact ⟨Fin.natAdd 1 i, Fin.append_right ..⟩

end Graph

end ComponentGraph
