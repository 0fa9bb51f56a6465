/-
  ComponentGraph.Proofs.View.Counts
  ────────────────────────────────
  **WHAT THE COUNTS DEPEND ON.**

  A summary counts what a walk of its own meets; that is what the tree and the
  document show, in another order (`counted_perm`).  The order shows only in
  the order in which types are listed.  So graphs with the same components
  have the same counts: a graph that stands in another one
  (`sameCounts_of_embeds`), and forests with the same components below a
  common top (`sameCounts_above`).
-/
import ComponentGraph.Proofs.Graph.Parts
import ComponentGraph.Proofs.Graph.Whole
import ComponentGraph.Proofs.Table
import ComponentGraph.View.Summary

namespace ComponentGraph

/-- Are the counts the same?  The types may be listed in another order. -/
structure Summary.SameCounts (a b : Summary) : Prop where
  components : a.components = b.components
  vulnerabilities : a.vulnerabilities = b.vulnerabilities
  byType : a.byType.Perm b.byType

/-! ## §1. What is counted. -/

namespace Graph

variable {n : Nat} (g : Graph n) (root : Fin n)

theorem nodup_counted : (g.counted root).Nodup := nodup_entered [root]

theorem mem_counted_iff {i : Fin n} : i ∈ g.counted root ↔ g.Reaches [root] i :=
  g.mem_entered_iff [root] fun _ _ => List.mem_reverse

/-- **What is counted is what can be reached**, in an order of its own. -/
theorem counted_perm : (g.counted root).Perm (g.reached [root]) := by
  rw [List.perm_ext_iff_of_nodup (g.nodup_counted root) (g.nodup_reached [root])]
  intro i
  rw [mem_counted_iff, mem_reached_iff]

/-- Of two children the second one is counted first. -/
example :
    let leaf (type : String) : Rooted := .above { name := none, type := some type } .empty
    let below := (leaf "container").toForest.append (leaf "library").toForest
    let g := Rooted.above { name := none, type := some "application" } below
    (g.graph.summary g.root).byType = [("application", 1), ("library", 1), ("container", 1)] := by
  cbv

theorem components_counted_perm :
    ((g.counted root).map g.component).Perm ((g.reached [root]).map g.component) :=
  (g.counted_perm root).map g.component

theorem components_summary : (g.summary root).components = (g.reached [root]).length := by
  show ((g.counted root).map g.component).length = _
  rw [List.length_map]
  exact (g.counted_perm root).length_eq

theorem vulnerabilities_summary : (g.summary root).vulnerabilities
    = (((g.reached [root]).map g.component).map Component.vulnerabilityCount).sum := by
  have hlists := (g.components_counted_perm root).flatMap_right Component.vulnerabilityList
  exact hlists.length_eq.trans List.length_flatMap

end Graph

/-! ## §2. The same components. -/

/-- Types are counted alike in any order. -/
theorem perm_counts {types other : List String} (h : types.Perm other) :
    (types.eraseDups.map fun type => (type, types.count type)).Perm
      (other.eraseDups.map fun type => (type, other.count type)) := by
  have hcount : ∀ type, types.count type = other.count type := fun type => h.count_eq type
  have herase : types.eraseDups.Perm other.eraseDups := by
    rw [List.perm_ext_iff_of_nodup (nodup_eraseDups types) (nodup_eraseDups other)]
    intro type
    rw [List.mem_eraseDups, List.mem_eraseDups, h.mem_iff]
  simp only [hcount]
  exact herase.map _

namespace Graph

variable {m n : Nat} {g : Graph m} {h : Graph n}

/-- Graphs in which the same components can be reached are counted alike. -/
theorem sameCounts_of_perm {i : Fin m} {j : Fin n}
    (hp : ((g.reached [i]).map g.component).Perm ((h.reached [j]).map h.component)) :
    (g.summary i).SameCounts (h.summary j) :=
  have hc : ((g.counted i).map g.component).Perm ((h.counted j).map h.component) :=
    (g.components_counted_perm i).trans (hp.trans (h.components_counted_perm j).symm)
  { components := hc.length_eq
    vulnerabilities := (hc.flatMap_right _).length_eq
    byType := perm_counts (hc.filterMap _) }

/-! ## §3. Graphs in graphs. -/

/-- The new numbers are met where the old ones are. -/
theorem Embeds.reached_perm {f : Fin m → Fin n} (he : Embeds g h f) (hf : Function.Injective f)
    (start : List (Fin m)) : ((g.reached start).map f).Perm (h.reached (start.map f)) := by
  rw [List.perm_ext_iff_of_nodup ((g.nodup_reached start).map hf) (h.nodup_reached _)]
  intro j
  rw [mem_reached_iff, he.reaches_iff, List.mem_map]
  simp only [mem_reached_iff]

/-- **A graph that stands in another one is counted there as it was.** -/
theorem sameCounts_of_embeds {f : Fin m → Fin n} (he : Embeds g h f) (hf : Function.Injective f)
    (i : Fin m) : (g.summary i).SameCounts (h.summary (f i)) := by
  apply sameCounts_of_perm
  have hp := (he.reached_perm hf [i]).map h.component
  rw [List.map_map] at hp
  have hc : (h.component ∘ f) = g.component := funext he.component
  rwa [hc] at hp

/-- Numbers that correspond to each other stand for the same components. -/
theorem Embeds.components_perm {f : Fin m → Fin n} (he : Embeds g h f)
    (hf : Function.Bijective f) :
    ((List.finRange m).map g.component).Perm ((List.finRange n).map h.component) := by
  have hall : ((List.finRange m).map f).Perm (List.finRange n) := by
    rw [List.perm_ext_iff_of_nodup ((List.nodup_finRange m).map hf.1) (List.nodup_finRange n)]
    intro j
    obtain ⟨i, rfl⟩ := hf.2 j
    simp
  have hc : h.component ∘ f = g.component := funext he.component
  rw [← hc, ← List.map_map]
  exact hall.map h.component

/-! ## §4. Forests below a top. -/

/-- Above a graph there is one number more. -/
theorem finRange_above (n : Nat) :
    (List.finRange (1 + n)).Perm (aboveRoot n :: (List.finRange n).map (Fin.natAdd 1)) := by
  have hnew : aboveRoot n ∉ (List.finRange n).map (Fin.natAdd 1) := by
    rintro ha
    obtain ⟨i, -, hi⟩ := List.mem_map.1 ha
    exact aboveRoot_ne_natAdd i hi.symm
  have hold : ((List.finRange n).map (Fin.natAdd 1)).Nodup :=
    (List.nodup_finRange n).map (Fin.natAdd_injective n 1)
  rw [List.perm_ext_iff_of_nodup (List.nodup_finRange _) (List.nodup_cons.2 ⟨hnew, hold⟩)]
  intro j
  rcases eq_aboveRoot_or j with rfl | ⟨i, rfl⟩ <;> simp

/-- Below a top that reaches everything, the top and all components are met. -/
theorem components_above_perm (top : Component) {start : List (Fin n)}
    (hh : ∀ i, h.Reaches start i) :
    (((h.above top start).reached [aboveRoot n]).map (h.above top start).component).Perm
      (top :: (List.finRange n).map h.component) := by
  have hp := ((reached_perm (reaches_all_above top hh)).trans (finRange_above n)).map
    (h.above top start).component
  have hc : (h.above top start).component ∘ Fin.natAdd 1 = h.component :=
    funext (embeds_above top h start).component
  rwa [List.map_cons, List.map_map, component_aboveRoot, hc] at hp

/-- **Graphs with the same components are counted alike below a top.** -/
theorem sameCounts_above (top : Component) {start : List (Fin m)} {more : List (Fin n)}
    (hg : ∀ i, g.Reaches start i) (hh : ∀ i, h.Reaches more i)
    (hp : ((List.finRange m).map g.component).Perm ((List.finRange n).map h.component)) :
    ((g.above top start).summary (aboveRoot m)).SameCounts
      ((h.above top more).summary (aboveRoot n)) := by
  apply sameCounts_of_perm
  exact (components_above_perm top hg).trans
    ((hp.cons top).trans (components_above_perm top hh).symm)

end Graph

end ComponentGraph
