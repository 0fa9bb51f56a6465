/-
  ComponentGraph.Proofs.Graph.Whole
  ────────────────────────────────
  **FORESTS WITHOUT LOOSE PARTS, AND WHAT THEY ADD UP TO.**

  A forest is whole if its roots reach every component.  Forests stay whole
  side by side and below a component (`isWhole_append`, `isWhole_above`), and
  what is measured of their components adds up (`total_append`,
  `total_above`).  In a whole graph a walk meets every component just once, so
  a count along the walk is such a total (`length_reached`,
  `sum_reached`).
-/
import ComponentGraph.Proofs.Graph.Embedding
import Mathlib.Algebra.BigOperators.Fin

namespace ComponentGraph

/-! ## §1. Whole forests. -/

namespace Graph

variable {m n : Nat} {g : Graph m} {h : Graph n} {start : List (Fin m)} {more : List (Fin n)}

theorem reaches_all_append (hg : ∀ i, g.Reaches start i) (hh : ∀ i, h.Reaches more i) :
    ∀ j, (g.append h).Reaches (start.map (Fin.castAdd n) ++ more.map (Fin.natAdd m)) j := by
  intro j
  rw [reaches_append_iff]
  -- the number says which of the two graphs it comes from
  cases j using Fin.addCases with
  | left i => exact .inl (((embeds_append_left g h).reaches_iff start _).2 ⟨i, hg i, rfl⟩)
  | right i => exact .inr (((embeds_append_right g h).reaches_iff more _).2 ⟨i, hh i, rfl⟩)

theorem reaches_all_above (c : Component) (hg : ∀ i, g.Reaches start i) :
    ∀ j, (g.above c start).Reaches [aboveRoot m] j := by
  intro j
  rw [reaches_singleton_iff, children_aboveRoot]
  rcases eq_aboveRoot_or j with rfl | ⟨i, rfl⟩
  · exact .inl rfl
  · exact .inr (((embeds_above c g start).reaches_iff start _).2 ⟨i, hg i, rfl⟩)

end Graph

namespace Forest

/-- Do the roots reach every component? -/
def IsWhole (f : Forest) : Prop := ∀ i, f.graph.Reaches f.roots i

theorem isWhole_empty : empty.IsWhole := fun i => i.elim0

theorem isWhole_append {a b : Forest} (ha : a.IsWhole) (hb : b.IsWhole) :
    (a.append b).IsWhole :=
  Graph.reaches_all_append ha hb

theorem isWhole_above (c : Component) {f : Forest} (hf : f.IsWhole) :
    (Rooted.above c f).toForest.IsWhole :=
  Graph.reaches_all_above c hf

/-! ## §2. Totals. -/

/-- A measure of components, over the whole forest. -/
def total (μ : Component → ℕ) (f : Forest) : ℕ := ∑ i, μ (f.graph.component i)

theorem total_one (f : Forest) : f.total (fun _ => 1) = f.size := by simp [total]

@[simp] theorem total_empty (μ : Component → ℕ) : empty.total μ = 0 := rfl

@[simp] theorem total_append (μ : Component → ℕ) (a b : Forest) :
    (a.append b).total μ = a.total μ + b.total μ := by
  unfold total append
  rw [Fin.sum_univ_add]
  simp only [(Graph.embeds_append_left a.graph b.graph).component,
    (Graph.embeds_append_right a.graph b.graph).component]

@[simp] theorem total_above (μ : Component → ℕ) (c : Component) (f : Forest) :
    (Rooted.above c f).toForest.total μ = μ c + f.total μ := by
  have htop : (f.graph.above c f.roots).component (Fin.castAdd f.size 0) = c :=
    Graph.component_aboveRoot c f.graph f.roots
  unfold total Rooted.toForest Rooted.above
  rw [Fin.sum_univ_add, Fin.sum_univ_one, htop]
  simp only [(Graph.embeds_above c f.graph f.roots).component]

end Forest

/-! ## §3. Walks over whole graphs. -/

namespace Graph

variable {n : Nat} {g : Graph n} {start : List (Fin n)}

/-- A walk meets every component that can be reached just once. -/
theorem reached_perm (h : ∀ i, g.Reaches start i) : (g.reached start).Perm (List.finRange n) := by
  rw [List.perm_ext_iff_of_nodup (g.nodup_reached start) (List.nodup_finRange n)]
  intro i
  rw [mem_reached_iff]
  exact ⟨fun _ => List.mem_finRange i, fun _ => h i⟩

theorem length_reached (h : ∀ i, g.Reaches start i) : (g.reached start).length = n := by
  rw [(reached_perm h).length_eq, List.length_finRange]

/-- What is added up along the walk is the total. -/
theorem sum_reached (h : ∀ i, g.Reaches start i) (μ : Component → ℕ) :
    (((g.reached start).map g.component).map μ).sum = ∑ i, μ (g.component i) := by
  rw [(((reached_perm h).map g.component).map μ).sum_eq, List.map_map, Fin.sum_univ_def]
  rfl

end Graph

end ComponentGraph
