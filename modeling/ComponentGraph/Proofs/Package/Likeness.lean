/-
  ComponentGraph.Proofs.Package.Likeness
  ────────────────────────────────
  **WHEN FORESTS ARE ALIKE.**

  The forest of a result is determined by its dependency graph but for the
  numbers.  So forests of two results are isomorphic as soon as the same keys
  are reached, convert to the same components, and depend on the same keys
  (`AgreesWith.isomorphic`); what else the results hold does not matter.
  On the other hand isomorphic forests have as many roots: a result with at
  least the same candidates has no others (`isCandidate_of_isomorphic`).
-/
import ComponentGraph.Proofs.Graph.Embedding
import ComponentGraph.Proofs.Package.Forest

namespace ComponentGraph

namespace Result

variable {r s : Result}

/-- Do the results have the same dependency graph, as far as it is reached? -/
structure AgreesWith (r s : Result) : Prop where
  reachable_iff : ∀ key, r.Reachable key ↔ s.Reachable key
  converted : ∀ key, r.Reachable key → r.converted? key = s.converted? key
  dependencies : ∀ key, r.Reachable key →
    (r.dependencies key).filter r.isConvertible = (s.dependencies key).filter s.isConvertible
  roots : (r.keys.filter fun key => r.isCandidate key && r.isConvertible key)
    = s.keys.filter fun key => s.isCandidate key && s.isConvertible key

/-- Components that stand for the same keys correspond to each other. -/
theorem exists_renumbering (h : ∀ key, r.Reachable key ↔ s.Reachable key) :
    ∃ φ : Fin r.forest.size → Fin s.forest.size,
      Function.Bijective φ ∧ ∀ i, s.keyAt (φ i) = r.keyAt i := by
  have hto : ∀ i, ∃ j, s.keyAt j = r.keyAt i := fun i =>
    (s.reachable_iff_keyAt _).1 ((h _).1 (r.reachable_keyAt i))
  choose φ hφ using hto
  refine ⟨φ, ⟨?_, ?_⟩, hφ⟩
  · intro i j he
    apply r.keyAt_injective
    rw [← hφ i, ← hφ j, he]
  · intro j
    obtain ⟨i, hi⟩ := (r.reachable_iff_keyAt _).1 ((h _).2 (s.reachable_keyAt j))
    refine ⟨i, s.keyAt_injective ?_⟩
    rw [hφ, hi]

/-- What is renumbered by its keys keeps its place in the list. -/
theorem map_renumbering {φ : Fin r.forest.size → Fin s.forest.size}
    (hφ : ∀ i, s.keyAt (φ i) = r.keyAt i) (below : List (Fin r.forest.size)) :
    (below.map φ).map s.keyAt = below.map r.keyAt := by
  rw [List.map_map]
  exact List.map_congr_left fun i _ => hφ i

/-- Where keys convert alike and depend on the same keys, the graphs are the
same under the new numbers. -/
theorem embeds_of_renumbering {φ : Fin r.forest.size → Fin s.forest.size}
    (hφ : ∀ i, s.keyAt (φ i) = r.keyAt i)
    (hconv : ∀ key, r.Reachable key → r.converted? key = s.converted? key)
    (hdeps : ∀ key, r.Reachable key →
      (r.dependencies key).filter r.isConvertible = (s.dependencies key).filter s.isConvertible) :
    Graph.Embeds r.forest.graph s.forest.graph φ where
  component i := by
    have hc := s.converted?_keyAt (φ i)
    rw [hφ, ← hconv _ (r.reachable_keyAt i), converted?_keyAt] at hc
    exact (Option.some.inj hc).symm
  children i := by
    -- lists of components are told apart by their keys
    apply List.map_injective_iff.2 s.keyAt_injective
    rw [map_renumbering hφ, map_children, map_children, hφ, hdeps _ (r.reachable_keyAt i)]

/-- **Forests with the same dependency graph are isomorphic.** -/
theorem AgreesWith.isomorphic (h : r.AgreesWith s) : r.forest.Isomorphic s.forest := by
  obtain ⟨φ, hbij, hφ⟩ := exists_renumbering h.reachable_iff
  refine ⟨φ, hbij, embeds_of_renumbering hφ h.converted h.dependencies, ?_⟩
  apply List.map_injective_iff.2 s.keyAt_injective
  rw [map_renumbering hφ, map_roots, map_roots, h.roots]

/-- A candidate stays one, if its package is the same and, where that is
indirect, not newly needed. -/
theorem isCandidate_of_isCandidate {key : Json} (hl : s.lastPackage? key = r.lastPackage? key)
    (hn : ∀ p, r.lastPackage? key = some p → p.indirect → s.isNeeded key → r.isNeeded key)
    (h : r.isCandidate key) : s.isCandidate key := by
  unfold isCandidate at h ⊢
  rw [hl]
  cases hp : r.lastPackage? key with
  | none => simp [hp] at h
  | some p =>
    rw [hp, Option.any_some] at h
    rw [Option.any_some]
    cases hi : p.indirect with
    | false => rfl
    | true =>
      simp only [hi, Bool.true_and, Bool.not_eq_true'] at h ⊢
      rw [← Bool.not_eq_true] at h ⊢
      exact fun hneed => h (hn p hp hi hneed)

/-- **Isomorphic forests have the same candidates**, if one result has all the
candidates of the other. -/
theorem isCandidate_of_isomorphic (hiso : r.forest.Isomorphic s.forest)
    (hroots : s.forest.roots.map s.keyAt
      = r.keys.filter fun key => s.isCandidate key && r.isConvertible key)
    (hmono : ∀ key, r.isConvertible key → r.isCandidate key → s.isCandidate key) {key : Json}
    (hk : key ∈ r.keys) (hconv : r.isConvertible key) (hc : s.isCandidate key) :
    r.isCandidate key := by
  have hlen : (r.keys.filter fun k => r.isCandidate k && r.isConvertible k).length
      = (r.keys.filter fun k => s.isCandidate k && r.isConvertible k).length := by
    rw [← map_roots, ← hroots, List.length_map, List.length_map]
    exact hiso.length_roots
  -- the roots can only become more
  have hsub : (r.keys.filter fun k => r.isCandidate k && r.isConvertible k).Sublist
      (r.keys.filter fun k => s.isCandidate k && r.isConvertible k) := by
    apply List.monotone_filter_right
    intro k hb
    rw [Bool.and_eq_true] at hb ⊢
    exact ⟨hmono k hb.2 hb.1, hb.2⟩
  have hmem : key ∈ r.keys.filter fun k => r.isCandidate k && r.isConvertible k := by
    rw [hsub.eq_of_length hlen, List.mem_filter, Bool.and_eq_true]
    exact ⟨hk, hc, hconv⟩
  rw [List.mem_filter, Bool.and_eq_true] at hmem
  exact hmem.2.1

end Result

end ComponentGraph
