/-
  ComponentGraph.Proofs.Package.Replacement
  ────────────────────────────────
  **WHAT A REPLACED PACKAGE LEAVES BEHIND.**

  Of the packages with one key the last one replaces the others, in the place
  of the first.  The index forgets what was replaced; the parents do not: a
  replaced package still counts among those that depend on a key.  So an
  indirect package that only replaced packages need is no root, though nothing
  that has survived leads to it:

      reduced           — a result without its replaced packages
      entries_reduced   — it has the same entries
      isCandidate_reduced_of_isCandidate — and at least the same candidates
      reduced_alike_iff — when nothing shows that packages were replaced
-/
import ComponentGraph.Proofs.Package.Likeness
import ComponentGraph.Proofs.Package.Skipping
import ComponentGraph.Proofs.Package.Surfacing

namespace ComponentGraph

namespace Result

variable {r : Result} {key : Json} {p : Package}

/-! ## §1. Survivors. -/

/-- The packages that no other one replaces, each where its key appears first. -/
def survivors (r : Result) : List Package := r.keys.filterMap r.lastPackage?

/-- The result without its replaced packages. -/
def reduced (r : Result) : Result := { r with packages := r.survivors }

theorem mem_survivors_iff : p ∈ r.survivors ↔ r.lastPackage? p.key = some p := by
  rw [survivors, List.mem_filterMap]
  constructor
  · rintro ⟨key, -, h⟩
    rw [(mem_of_lastPackage? h).2]
    exact h
  · intro h
    refine ⟨p.key, ?_, h⟩
    rw [mem_keys_iff, h]
    rfl

theorem survivors_subset (hp : p ∈ r.survivors) : p ∈ r.packages :=
  (mem_of_lastPackage? (mem_survivors_iff.1 hp)).1

theorem map_key_survivors : r.survivors.map Package.key = r.keys := by
  have h : ∀ k ∈ r.keys, (r.lastPackage? k).map Package.key = some k := by
    intro k hk
    obtain ⟨p, hp⟩ := Option.isSome_iff_exists.1 (r.mem_keys_iff.1 hk)
    rw [hp, Option.map_some, (mem_of_lastPackage? hp).2]
  rw [survivors, List.map_filterMap, List.filterMap_congr h, List.filterMap_some]

theorem nodup_key_reduced : (r.reduced.packages.map Package.key).Nodup := by
  show (r.survivors.map Package.key).Nodup
  rw [map_key_survivors]
  exact r.nodup_keys

/-! ## §2. What stays as it is. -/

theorem keys_reduced : r.reduced.keys = r.keys := by
  show (r.survivors.map Package.key).eraseDups = r.keys
  rw [map_key_survivors, eraseDups_of_nodup r.nodup_keys]

theorem lastPackage?_reduced : r.reduced.lastPackage? key = r.lastPackage? key := by
  cases h : r.lastPackage? key with
  | none =>
    rw [← Option.not_isSome_iff_eq_none, ← mem_keys_iff, keys_reduced, mem_keys_iff, h]
    simp
  | some p =>
    obtain rfl := (mem_of_lastPackage? h).2
    exact lastPackage?_of_mem nodup_key_reduced (mem_survivors_iff.2 h)

theorem index_reduced : r.reduced.index = r.index := by
  refine Table.eq_of_find? (Table.nodup_ofList _) ?_ ?_
  · rw [map_fst_index, map_fst_index, keys_reduced]
  · intro k
    rw [find?_index, find?_index, lastPackage?_reduced]

theorem entries_reduced : r.reduced.entries = r.entries := by
  rw [entries_eq, entries_eq, index_reduced]
  rfl

theorem isConvertible_reduced : r.reduced.isConvertible key = r.isConvertible key := by
  rw [isConvertible, isConvertible, converted?, converted?, lastPackage?_reduced]
  rfl

/-- Nothing new is needed. -/
theorem isNeeded_of_reduced (h : r.reduced.isNeeded key) : r.isNeeded key := by
  obtain ⟨q, hq, hk⟩ := isNeeded_iff.1 h
  exact isNeeded_iff.2 ⟨q, survivors_subset hq, hk⟩

/-- Candidates stay candidates. -/
theorem isCandidate_reduced_of_isCandidate (h : r.isCandidate key) :
    r.reduced.isCandidate key :=
  isCandidate_of_isCandidate lastPackage?_reduced (fun _ _ _ => isNeeded_of_reduced) h

/-! ## §3. What may change. -/

/-- An indirect package that only replaced packages need becomes a candidate
when these go. -/
theorem isCandidate_cases (hp : p ∈ r.survivors) (hi : p.indirect)
    (hneed : ∃ q ∈ r.packages, q.Needs p) (hno : ¬ ∃ q ∈ r.survivors, q.Needs p) :
    r.isCandidate p.key = false ∧ r.reduced.isCandidate p.key := by
  have hl := mem_survivors_iff.1 hp
  have hn : r.isNeeded p.key := isNeeded_iff.2 hneed
  have hn' : r.reduced.isNeeded p.key = false := by
    rw [← Bool.not_eq_true, isNeeded_iff]
    exact hno
  constructor
  · simp [isCandidate, hl, hi, hn]
  · rw [isCandidate, lastPackage?_reduced, hl, Option.any_some, hn']
    simp

/-- If no key becomes a candidate, nothing changes. -/
theorem built_reduced
    (h : ∀ p ∈ r.survivors, p.indirect → (∃ q ∈ r.packages, q.Needs p) →
      ∃ q ∈ r.survivors, q.Needs p) : r.reduced.built = r.built := by
  have hc : r.reduced.candidates = r.candidates := by
    rw [candidates_eq, candidates_eq, keys_reduced]
    apply List.filter_congr
    intro key _
    rw [Bool.eq_iff_iff]
    refine ⟨isCandidate_of_isCandidate lastPackage?_reduced.symm fun p hp hi hn => ?_,
      isCandidate_reduced_of_isCandidate⟩
    rw [lastPackage?_reduced] at hp
    obtain rfl := (mem_of_lastPackage? hp).2
    obtain ⟨q, hq, hn⟩ := h p (mem_survivors_iff.2 hp) hi (isNeeded_iff.1 hn)
    exact isNeeded_iff.2 ⟨q, hq, hn⟩
  rw [built, built, entries_reduced, hc]

/-- A key that becomes a root makes the forest another one. -/
theorem not_isomorphic_reduced (hc : r.isCandidate key = false)
    (hc' : r.reduced.isCandidate key) (hk : key ∈ r.keys) (hconv : r.isConvertible key) :
    ¬ r.forest.Isomorphic r.reduced.forest := by
  intro hiso
  have hroots : r.reduced.forest.roots.map r.reduced.keyAt
      = r.keys.filter fun k => r.reduced.isCandidate k && r.isConvertible k := by
    rw [map_roots, keys_reduced]
    simp only [isConvertible_reduced]
  have h := isCandidate_of_isomorphic hiso hroots
    (fun _ _ => isCandidate_reduced_of_isCandidate) hk hconv hc'
  rw [hc] at h
  contradiction

/-- A key that cannot be converted is left out as soon as it is a candidate. -/
theorem skipped_ne_reduced (hp : p ∈ r.survivors) (hno : ¬ ∃ q ∈ r.survivors, q.Needs p)
    (hc : r.isCandidate p.key = false) (hc' : r.reduced.isCandidate p.key)
    (hconv : ¬ r.isConvertible p.key) : r.skipped ≠ r.reduced.skipped := by
  intro he
  have hk : p.key ∈ r.keys := by
    rw [← map_key_survivors]
    exact List.mem_map_of_mem hp
  have hleft : p.key ∈ r.reduced.built.refused := by
    rw [mem_refused_iff, keys_reduced, isConvertible_reduced]
    exact ⟨.inl hc', hk, hconv⟩
  rw [← map_key_skipped, ← he, map_key_skipped, mem_refused_iff] at hleft
  -- no survivor needs it, so it would have to be a candidate
  rcases hleft.1 with hcand | ⟨owner, hr, hd⟩
  · rw [hc] at hcand
    contradiction
  · obtain ⟨q, hq⟩ := hr.exists_lastPackage?
    refine hno ⟨q, mem_survivors_iff.2 ?_, ?_⟩
    · rw [(mem_of_lastPackage? hq).2, hq]
    · rw [dependencies, hq] at hd
      exact hd

/-- **Replaced packages leave no trace just if every indirect package that some
package needs is needed by a survivor.** -/
theorem reduced_alike_iff (r : Result) :
    (r.forest.Isomorphic r.reduced.forest ∧ r.skipped = r.reduced.skipped)
      ↔ ∀ p ∈ r.survivors, p.indirect → (∃ q ∈ r.packages, q.Needs p) →
          ∃ q ∈ r.survivors, q.Needs p := by
  constructor
  · rintro ⟨hiso, hskip⟩ p hp hi hneed
    by_contra hno
    obtain ⟨hc, hc'⟩ := isCandidate_cases hp hi hneed hno
    have hk : p.key ∈ r.keys := by
      rw [← map_key_survivors]
      exact List.mem_map_of_mem hp
    by_cases hconv : r.isConvertible p.key
    · exact not_isomorphic_reduced hc hc' hk hconv hiso
    · exact skipped_ne_reduced hp hno hc hc' hconv hskip
  · intro h
    have hb := built_reduced h
    constructor
    · rw [forest, forest, hb]
      exact .refl _
    · rw [skipped, skipped, hb]
      rfl

/-- A lock file that lists a package again, without the dependency that it had
at first. -/
def relisted : Result where
  target := .ofText "package-lock.json"
  type := .ofText "npm"
  class_ := .ofText "lang-pkgs"
  packages := [
    { Package.plain "app" "1" with dependsOn := [.text "lib@1"] },
    Package.plain "app" "1",
    { Package.plain "lib" "1" with indirect := true }]
  vulnerabilities := []

theorem relisted_differs_reduced :
    ¬ (relisted.forest.Isomorphic relisted.reduced.forest
      ∧ relisted.skipped = relisted.reduced.skipped) := by
  rw [reduced_alike_iff]
  intro h
  have hlib := h { Package.plain "lib" "1" with indirect := true } (by decide +kernel) rfl
    (by decide +kernel)
  have hno : ¬ ∃ q ∈ relisted.survivors,
      q.Needs { Package.plain "lib" "1" with indirect := true } := by
    decide +kernel
  exact hno hlib

end Result

end ComponentGraph
