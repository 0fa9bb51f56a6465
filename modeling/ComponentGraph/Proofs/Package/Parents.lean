/-
  ComponentGraph.Proofs.Package.Parents
  ────────────────────────────────
  **PARENTS ARE DEPENDENCIES TURNED ROUND.**

  A package says on which keys it depends; the parents of a key are the
  packages that say so.  Nothing is lost on the way and nothing is filed under
  a wrong key, also where packages share a key or say a thing twice
  (`parents_turn_edges`).
-/
import ComponentGraph.Package.Basic
import ComponentGraph.Proofs.Table

namespace ComponentGraph

variable (packages others : List Package)

/-- The packages that depend on a key, once for each mention, in order. -/
def dependents (key : Json) : List Json :=
  packages.flatMap fun p => List.replicate (p.dependsOn.count key) p.key

theorem map_fst_edges : (edges packages).map (·.1) = packages.flatMap (·.dependsOn) := by
  rw [edges, List.map_flatMap]
  congr 1
  funext p
  rw [List.map_map]
  exact List.map_id _

theorem edges_append : edges (packages ++ others) = edges packages ++ edges others :=
  List.flatMap_append

/-- The edges to a key come from its dependents. -/
theorem map_snd_filter_edges (key : Json) :
    ((edges packages).filter (·.1 = key)).map (·.2) = dependents packages key := by
  rw [edges, dependents, List.filter_flatMap, List.map_flatMap]
  congr 1
  funext p
  have hfilter : p.dependsOn.filter ((fun e => decide (e.1 = key)) ∘ fun dep => (dep, p.key))
      = p.dependsOn.filter (· == key) := by
    apply List.filter_congr
    intro dep _
    simp [Bool.beq_eq_decide_eq]
  -- all edges from one package have its key at the other end
  rw [List.filter_map, List.map_map, hfilter, List.count, List.countP_eq_length_filter]
  exact List.map_const'

/-- **The parents are the edges turned round.**  A key has parents just if
something depends on it, and these are its dependents, in order; the keys stand
in order of first mention, no mention is lost, and the parents among more
packages come behind those among the first ones. -/
theorem parents_turn_edges :
    (∀ key, Table.find? key (parents packages)
      = if ∃ p ∈ packages, key ∈ p.dependsOn then some (dependents packages key) else none)
    ∧ (parents packages).map (·.1) = (packages.flatMap (·.dependsOn)).eraseDups
    ∧ ((parents packages).map (·.2.length)).sum = (packages.map (·.dependsOn.length)).sum
    ∧ ∀ others, parents (packages ++ others) = Table.join (parents packages) (parents others) := by
  refine ⟨fun key => ?_, ?_, ?_, fun others => ?_⟩
  · rw [parents, Table.find?_group, map_snd_filter_edges, map_fst_edges]
    simp only [List.mem_flatMap]
  · rw [parents, Table.map_fst_group, map_fst_edges]
  · rw [parents, Table.sum_length_group, ← List.length_map (·.1), map_fst_edges,
      List.length_flatMap]
  · rw [parents, edges_append, Table.group_append, parents, parents]

end ComponentGraph
