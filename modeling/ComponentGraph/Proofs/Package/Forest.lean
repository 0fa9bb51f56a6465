/-
  ComponentGraph.Proofs.Package.Forest
  ────────────────────────────────
  **THE FOREST IS THE DEPENDENCY GRAPH OF ITS PACKAGES.**

  Which keys must become components, and what hangs below them, is said by
  the packages alone: start with the candidates that can be converted, and
  follow dependencies that can be converted.  The forest of a result is this
  graph, with one component for each key:

      Reachable   — the keys that must become components
      Presents    — a forest whose components are these keys, with complete
                    lists of children
-/
import ComponentGraph.Package.Forest
import ComponentGraph.Proofs.Graph.Reach
import ComponentGraph.Proofs.Package.Building
import ComponentGraph.Proofs.Package.Index

namespace ComponentGraph

namespace Result

/-! ## §1. The dependency graph. -/

/-- The keys that can be reached from a convertible candidate through
convertible dependencies. -/
inductive Reachable (r : Result) : Json → Prop where
  | candidate {key : Json} : r.isCandidate key → r.isConvertible key → Reachable r key
  | dependency {key dep : Json} : Reachable r key → dep ∈ r.dependencies key →
      r.isConvertible dep → Reachable r dep

theorem Reachable.isConvertible {r : Result} {key : Json} (h : r.Reachable key) :
    r.isConvertible key := by
  cases h with
  | candidate _ hc => exact hc
  | dependency _ _ hc => exact hc

/-- The forest presents the dependency graph, `keyAt` being the key that each
component stands for. -/
structure Presents (r : Result) (f : Forest) (keyAt : Fin f.size → Json) : Prop where
  /-- No two components stand for one key. -/
  injective : Function.Injective keyAt
  /-- Every component can be reached from the roots. -/
  reached : ∀ i, f.graph.Reaches f.roots i
  /-- The keys of components are the reachable ones. -/
  reachable_iff : ∀ key, r.Reachable key ↔ ∃ i, keyAt i = key
  /-- A component is its key's last package, converted. -/
  component : ∀ i, r.converted? (keyAt i) = some (f.graph.component i)
  /-- Its children are the dependencies that can be converted, each once and
  in order. -/
  children : ∀ i, (f.graph.children i).map keyAt
    = ((r.dependencies (keyAt i)).filter r.isConvertible).eraseDups
  /-- The roots are the candidates that can be converted, in the order of the
  index. -/
  roots : f.roots.map keyAt = r.keys.filter fun key => r.isCandidate key && r.isConvertible key
  /-- No component is a root twice. -/
  roots_nodup : f.roots.Nodup

/-! ## §2. What building makes of it. -/

section Built

variable (r : Result)

theorem outcomeOf?_entries (key : Json) :
    Builder.outcomeOf? r.entries key = r.converted? key := by
  rw [Builder.outcomeOf?, entryOf?_entries, converted?, Option.bind_map]
  rfl

theorem becomes_entries : Builder.becomes r.entries = r.isConvertible := by
  funext key
  rw [Builder.becomes, outcomeOf?_entries]
  rfl

theorem needs_entries (key : Json) : Builder.needs r.entries key = r.dependencies key := by
  rw [Builder.needs, entryOf?_entries, Option.map_map]
  rfl

theorem isCandidate_mem_keys {key : Json} (h : r.isCandidate key) : key ∈ r.keys := by
  rw [mem_keys_iff]
  cases hl : r.lastPackage? key with
  | none => simp [isCandidate, hl] at h
  | some p => rfl

/-- Building wants the keys that are reachable. -/
theorem wanted_iff (key : Json) :
    Builder.Wanted r.entries r.candidates key ↔ r.Reachable key := by
  constructor
  · intro h
    induction h with
    | candidate hc hb =>
      rw [candidates_eq, List.mem_filter] at hc
      rw [becomes_entries] at hb
      exact .candidate hc.2 hb
    | needed _ hd hb ih =>
      rw [needs_entries] at hd
      rw [becomes_entries] at hb
      exact .dependency ih hd hb
  · intro h
    induction h with
    | candidate hc hb =>
      refine .candidate ?_ ?_
      · rw [candidates_eq, List.mem_filter]
        exact ⟨r.isCandidate_mem_keys hc, hc⟩
      · rw [becomes_entries]
        exact hb
    | dependency _ hd hb ih =>
      refine .needed ih ?_ ?_
      · rw [needs_entries]
        exact hd
      · rw [becomes_entries]
        exact hb

theorem built_finished : Builder.Finished r.entries r.candidates r.built :=
  Builder.run_finished _ _

theorem mem_registered_iff {key : Json} : key ∈ r.built.registered ↔ r.Reachable key := by
  rw [r.built_finished.registered, wanted_iff]

end Built

/-! ## §3. Numbers and keys. -/

section Numbered

/-- A key is found under its number, unless it is not there. -/
theorem finIdxOf?_cases {n : Nat} (registered : Vector Json n) (key : Json) :
    (∃ i, registered.finIdxOf? key = some i ∧ registered.get i = key) ∨ key ∉ registered := by
  obtain ⟨xs, rfl⟩ := registered
  rw [Vector.finIdxOf?_mk]
  cases h : xs.finIdxOf? key with
  | none => exact .inr (by simpa using h)
  | some i => exact .inl ⟨i, rfl, (Array.finIdxOf?_eq_some_iff.1 h).1⟩

/-- Registered keys come back from their numbers. -/
theorem map_numbers {n : Nat} (registered : Vector Json n) {keys : List Json}
    (h : ∀ key ∈ keys, key ∈ registered) :
    (numbers registered keys).map registered.get = keys := by
  -- no key is dropped on the way, since each of them has a number
  induction keys with
  | nil => rfl
  | cons key keys ih =>
    obtain ⟨i, hi, he⟩ | hn := finIdxOf?_cases registered key
    · rw [numbers, List.filterMap_cons_some hi, List.map_cons, he]
      exact congrArg _ (ih fun k hm => h k (List.mem_cons_of_mem _ hm))
    · exact absurd (h key List.mem_cons_self) hn

variable (drafts : List Draft) (roots : List Json)

/-- The key that the component of this number stands for. -/
def keyOf (i : Fin drafts.length) : Json := (drafts.get i).key

/-- The keys of the drafts, by number. -/
def keyVector : Vector Json drafts.length :=
  (⟨drafts.toArray, List.size_toArray⟩ : Vector Draft drafts.length).map (·.key)

theorem get_keyVector (i : Fin drafts.length) : (keyVector drafts).get i = keyOf drafts i :=
  Vector.getElem_map _ i.isLt

theorem map_numbers_keyVector {keys : List Json}
    (h : ∀ key ∈ keys, key ∈ drafts.map (·.key)) :
    (numbers (keyVector drafts) keys).map (keyOf drafts) = keys := by
  rw [← funext (get_keyVector drafts)]
  exact map_numbers _ (by simpa [keyVector] using h)

theorem node_forestOf (i : Fin drafts.length) :
    (forestOf drafts roots).graph.nodes.get i
      = ⟨(drafts.get i).component, numbers (keyVector drafts) (drafts.get i).children⟩ :=
  Vector.getElem_map _ i.isLt

theorem component_forestOf (i : Fin drafts.length) :
    (forestOf drafts roots).graph.component i = (drafts.get i).component :=
  congrArg Node.component (node_forestOf drafts roots i)

theorem children_forestOf (i : Fin drafts.length) :
    (forestOf drafts roots).graph.children i
      = numbers (keyVector drafts) (drafts.get i).children :=
  congrArg Node.children (node_forestOf drafts roots i)

theorem keyOf_injective (h : (drafts.map (·.key)).Nodup) : Function.Injective (keyOf drafts) := by
  intro i j he
  have hd : drafts.get i = drafts.get j :=
    List.inj_on_of_nodup_map h (List.get_mem _ _) (List.get_mem _ _) he
  exact List.Nodup.injective_get h.of_map hd

end Numbered

/-! ## §4. The forest. -/

section Forest

variable (r : Result)

/-- The key that a component of the forest stands for. -/
def keyAt (i : Fin r.forest.size) : Json := keyOf r.built.drafts i

theorem keyAt_injective : Function.Injective r.keyAt :=
  keyOf_injective _ r.built_finished.sound.nodup

theorem draft_mem (i : Fin r.forest.size) : r.built.drafts.get i ∈ r.built.drafts :=
  List.get_mem _ _

/-- A component of the forest is what its key converts to. -/
theorem converted?_keyAt (i : Fin r.forest.size) :
    r.converted? (r.keyAt i) = some (r.forest.graph.component i) := by
  have h := r.built_finished.sound.converted _ (r.draft_mem i)
  rw [outcomeOf?_entries] at h
  exact h.trans (congrArg some (component_forestOf _ _ i).symm)

theorem reachable_iff_keyAt (key : Json) : r.Reachable key ↔ ∃ i, r.keyAt i = key := by
  rw [← mem_registered_iff, Builder.registered, List.mem_map]
  constructor
  · rintro ⟨d, hd, rfl⟩
    obtain ⟨i, rfl⟩ := List.get_of_mem hd
    exact ⟨i, rfl⟩
  · rintro ⟨i, rfl⟩
    exact ⟨_, r.draft_mem i, rfl⟩

/-- What may be reached is registered. -/
theorem mem_keys_drafts {key : Json} (h : r.Reachable key) :
    key ∈ r.built.drafts.map (·.key) := r.mem_registered_iff.2 h

theorem reachable_keyAt (i : Fin r.forest.size) : r.Reachable (r.keyAt i) :=
  (r.reachable_iff_keyAt _).2 ⟨i, rfl⟩

/-- The children in the forest, by their keys. -/
theorem map_children (i : Fin r.forest.size) : (r.forest.graph.children i).map r.keyAt
    = ((r.dependencies (r.keyAt i)).filter r.isConvertible).eraseDups := by
  have h := r.built_finished.children _ (r.draft_mem i)
  -- the numbers of the draft's children bring back its keys, all registered
  rw [needs_entries, becomes_entries] at h
  refine Eq.trans ?_ h
  rw [show r.forest.graph.children i = _ from children_forestOf _ _ i]
  apply map_numbers_keyVector
  intro key hk
  rw [h, List.mem_eraseDups, List.mem_filter] at hk
  exact r.mem_keys_drafts (.dependency (r.reachable_keyAt i) hk.1 hk.2)

/-- The roots of the forest, by their keys. -/
theorem map_roots : r.forest.roots.map r.keyAt
    = r.keys.filter fun key => r.isCandidate key && r.isConvertible key := by
  have h := r.built_finished.roots
  rw [becomes_entries, candidates_eq, List.filter_filter] at h
  have h : r.built.roots = r.keys.filter fun key => r.isCandidate key && r.isConvertible key := by
    simpa [Bool.and_comm] using h
  refine Eq.trans (map_numbers_keyVector _ ?_) h
  intro key hk
  rw [h, List.mem_filter, Bool.and_eq_true] at hk
  exact r.mem_keys_drafts (.candidate hk.2.1 hk.2.2)

/-- What the packages can reach, the roots can reach. -/
theorem reaches_of_reachable {key : Json} (h : r.Reachable key) :
    ∀ i, r.keyAt i = key → r.forest.graph.Reaches r.forest.roots i := by
  -- along the dependencies: one more of them is one more child
  induction h with
  | @candidate key hc hb =>
    intro i he
    have hm : key ∈ r.forest.roots.map r.keyAt := by
      rw [map_roots, List.mem_filter, Bool.and_eq_true]
      exact ⟨r.isCandidate_mem_keys hc, hc, hb⟩
    obtain ⟨j, hj, hk⟩ := List.mem_map.1 hm
    rw [r.keyAt_injective (he.trans hk.symm)]
    exact .start hj
  | @dependency parent key hp hd hb ih =>
    intro i he
    obtain ⟨k, rfl⟩ := (r.reachable_iff_keyAt _).1 hp
    have hm : key ∈ (r.forest.graph.children k).map r.keyAt := by
      rw [map_children, List.mem_eraseDups, List.mem_filter]
      exact ⟨hd, hb⟩
    obtain ⟨j, hj, hk⟩ := List.mem_map.1 hm
    rw [r.keyAt_injective (he.trans hk.symm)]
    exact .child (ih k rfl) hj

/-- **The forest of a result presents its dependency graph.** -/
theorem forest_presents : r.Presents r.forest r.keyAt where
  injective := r.keyAt_injective
  reached i := r.reaches_of_reachable (r.reachable_keyAt i) i rfl
  reachable_iff := r.reachable_iff_keyAt
  component := r.converted?_keyAt
  children := r.map_children
  roots := r.map_roots
  roots_nodup := by
    apply List.Nodup.of_map r.keyAt
    rw [map_roots]
    exact r.nodup_keys.filter _

end Forest

end Result

end ComponentGraph
