/-
  ComponentGraph.Proofs.Package.Reordering
  ────────────────────────────────
  **THE ORDER OF PACKAGES.**

  Building starts with the candidates in the order of the packages, and so
  enters cycles and shared components, and meets packages that cannot be
  converted, in an order of its own.  Where every package has a key of its
  own none of this shows: what a key converts to and depends on, and whether
  it is a candidate, are said of the packages as a set.  Other orders of the
  same packages put the roots in another order, and that is all
  (`reordered_alike`).
-/
import ComponentGraph.Proofs.Package.Likeness
import ComponentGraph.Proofs.Package.Surfacing
import ComponentGraph.Proofs.Package.Tracing
import ComponentGraph.Proofs.View.Counts

namespace ComponentGraph

namespace Result

variable {r : Result} {packages : List Package} {key : Json}

/-! ## §1. What a forest shows. -/

/-- The keys of the roots, in order. -/
def rootKeys (r : Result) : List Json := r.forest.roots.map r.keyAt

/-- Has the forest this component under this key, with children under these
keys, in order? -/
def Shows (r : Result) (key : Json) (c : Component) (below : List Json) : Prop :=
  ∃ i, r.forest.graph.Reaches r.forest.roots i ∧ r.keyAt i = key
    ∧ r.forest.graph.component i = c ∧ (r.forest.graph.children i).map r.keyAt = below

/-- What a forest shows is said by the packages. -/
theorem shows_iff {c : Component} {below : List Json} : r.Shows key c below
    ↔ r.Reachable key ∧ r.converted? key = some c
      ∧ ((r.dependencies key).filter r.isConvertible).eraseDups = below := by
  constructor
  · rintro ⟨i, -, rfl, rfl, rfl⟩
    exact ⟨r.reachable_keyAt i, r.converted?_keyAt i, (r.map_children i).symm⟩
  · rintro ⟨hr, hc, hb⟩
    obtain ⟨i, rfl⟩ := (r.reachable_iff_keyAt key).1 hr
    rw [converted?_keyAt, Option.some.injEq] at hc
    exact ⟨i, r.reaches_of_reachable hr i rfl, rfl, hc, (r.map_children i).trans hb⟩

theorem reachable_iff_shows : r.Reachable key ↔ ∃ c below, r.Shows key c below := by
  constructor
  · intro h
    obtain ⟨c, hc⟩ := Option.isSome_iff_exists.1 h.isConvertible
    exact ⟨c, _, shows_iff.2 ⟨h, hc, rfl⟩⟩
  · rintro ⟨c, below, h⟩
    exact (shows_iff.1 h).1

/-- Is the second result built like the first one, but for the order of its
roots and of what it leaves out? -/
structure BuiltAlike (r s : Result) : Prop where
  /-- No two components of a forest stand for one key. -/
  keyed : Function.Injective r.keyAt ∧ Function.Injective s.keyAt
  /-- What a forest shows are the keys that the packages reach. -/
  reached : ∀ key, r.Reachable key ↔ ∃ c below, r.Shows key c below
  /-- The same keys are reached; each has the same component, and its children
  have the same keys in the same order. -/
  shows_iff : ∀ key c below, r.Shows key c below ↔ s.Shows key c below
  /-- The roots have the same keys, in the order of the packages. -/
  roots : s.rootKeys = (s.packages.map Package.key).filter fun key => key ∈ r.rootKeys
  roots_perm : s.rootKeys.Perm r.rootKeys
  /-- The same packages are left out, for the same reasons. -/
  skipped : s.skipped.Perm r.skipped
  /-- The counts below components with the same key are the same. -/
  counts : ∀ i j, r.keyAt i = s.keyAt j →
    (r.forest.graph.summary i).SameCounts (s.forest.graph.summary j)
  /-- So are those below a component above the forest. -/
  counts_above : ∀ top, ((Rooted.above top r.forest).graph.summary
      (Rooted.above top r.forest).root).SameCounts
    ((Rooted.above top s.forest).graph.summary (Rooted.above top s.forest).root)

/-! ## §2. Packages in another order. -/

/-- The result with these packages. -/
def withPackages (r : Result) (packages : List Package) : Result := { r with packages }

theorem lastPackage?_eq_some_iff (hd : (r.packages.map Package.key).Nodup) {p : Package} :
    r.lastPackage? key = some p ↔ p ∈ r.packages ∧ p.key = key := by
  constructor
  · exact mem_of_lastPackage?
  · rintro ⟨hp, rfl⟩
    exact lastPackage?_of_mem hd hp

/-- Where every package has a key of its own, the roots stand in the order of
the packages. -/
theorem rootKeys_of_nodup (hd : (r.packages.map Package.key).Nodup) : r.rootKeys
    = (r.packages.map Package.key).filter fun key => r.isCandidate key && r.isConvertible key := by
  rw [rootKeys, map_roots, keys, eraseDups_of_nodup hd]

section Reordered

variable (hd : (r.packages.map Package.key).Nodup) (hp : packages.Perm r.packages)

include hp in
theorem isNeeded_reordered : (r.withPackages packages).isNeeded key = r.isNeeded key := by
  rw [Bool.eq_iff_iff, isNeeded_iff, isNeeded_iff]
  exact exists_congr fun q => and_congr_left fun _ => hp.mem_iff

include hd hp

theorem nodup_reordered : ((r.withPackages packages).packages.map Package.key).Nodup :=
  (hp.map Package.key).nodup_iff.2 hd

/-- A key has the same package in any order. -/
theorem lastPackage?_reordered : (r.withPackages packages).lastPackage? key = r.lastPackage? key := by
  apply Option.ext
  intro p
  rw [lastPackage?_eq_some_iff (nodup_reordered hd hp), lastPackage?_eq_some_iff hd]
  exact and_congr_left fun _ => hp.mem_iff

theorem converted?_reordered : (r.withPackages packages).converted? key = r.converted? key := by
  unfold converted?
  rw [lastPackage?_reordered hd hp]
  rfl

theorem isConvertible_reordered : (r.withPackages packages).isConvertible = r.isConvertible := by
  funext key
  rw [isConvertible, isConvertible, converted?_reordered hd hp]

theorem dependencies_reordered :
    (r.withPackages packages).dependencies key = r.dependencies key := by
  rw [dependencies, dependencies, lastPackage?_reordered hd hp]

theorem isCandidate_reordered : (r.withPackages packages).isCandidate key = r.isCandidate key := by
  rw [isCandidate, isCandidate, lastPackage?_reordered hd hp, isNeeded_reordered hp]

theorem skip?_reordered : (r.withPackages packages).skip? key = r.skip? key := by
  unfold skip? failure?
  rw [lastPackage?_reordered hd hp]
  rfl

theorem Reachable.reordered (h : r.Reachable key) : (r.withPackages packages).Reachable key := by
  induction h with
  | candidate hc hconv =>
    refine .candidate ?_ ?_
    · rwa [isCandidate_reordered hd hp]
    · rwa [isConvertible_reordered hd hp]
  | dependency _ hdep hconv ih =>
    refine .dependency ih ?_ ?_
    · rwa [dependencies_reordered hd hp]
    · rwa [isConvertible_reordered hd hp]

/-- The same keys are reached: the packages can be put back in order. -/
theorem reachable_reordered_iff : r.Reachable key ↔ (r.withPackages packages).Reachable key :=
  ⟨Reachable.reordered hd hp, Reachable.reordered (nodup_reordered hd hp) hp.symm⟩

theorem visited_reordered_iff : r.Visited key ↔ (r.withPackages packages).Visited key := by
  unfold Visited
  simp only [isCandidate_reordered hd hp, dependencies_reordered hd hp,
    ← reachable_reordered_iff hd hp]

theorem rootKeys_reordered : (r.withPackages packages).rootKeys
    = (packages.map Package.key).filter fun key => r.isCandidate key && r.isConvertible key := by
  rw [rootKeys_of_nodup (nodup_reordered hd hp)]
  simp only [isCandidate_reordered hd hp, isConvertible_reordered hd hp]
  rfl

theorem mem_rootKeys_iff : key ∈ r.rootKeys
    ↔ key ∈ packages.map Package.key ∧ r.isCandidate key ∧ r.isConvertible key := by
  rw [rootKeys_of_nodup hd, List.mem_filter, Bool.and_eq_true, (hp.map Package.key).mem_iff]

/-- The same packages are left out. -/
theorem skipped_reordered_perm : (r.withPackages packages).skipped.Perm r.skipped := by
  rw [List.perm_ext_iff_of_nodup (nodup_key_skipped _).of_map (nodup_key_skipped _).of_map]
  intro skip
  rw [mem_skipped_iff, mem_skipped_iff, ← visited_reordered_iff hd hp, skip?_reordered hd hp]

/-- The forests are the same but for their numbers and for the order of their
roots. -/
theorem exists_renumbering_reordered :
    ∃ φ : Fin r.forest.size → Fin (r.withPackages packages).forest.size, Function.Bijective φ
      ∧ (∀ i, (r.withPackages packages).keyAt (φ i) = r.keyAt i)
      ∧ Graph.Embeds r.forest.graph (r.withPackages packages).forest.graph φ := by
  obtain ⟨φ, hbij, hφ⟩ := exists_renumbering (r := r) (s := r.withPackages packages)
    fun _ => reachable_reordered_iff hd hp
  refine ⟨φ, hbij, hφ, embeds_of_renumbering hφ (fun key _ => ?_) fun key _ => ?_⟩
  · rw [converted?_reordered hd hp]
  · rw [dependencies_reordered hd hp, isConvertible_reordered hd hp]

end Reordered

/-- **Packages with keys of their own can be listed in any order**: the forest
is the same by its keys, its roots come in the new order, the same packages
are left out, and the counts are the same. -/
theorem reordered_alike (r : Result) (packages : List Package)
    (hd : (r.packages.map Package.key).Nodup) (hp : packages.Perm r.packages) :
    r.BuiltAlike (r.withPackages packages) := by
  obtain ⟨φ, hbij, hφ, hembeds⟩ := exists_renumbering_reordered hd hp
  refine ⟨⟨r.keyAt_injective, keyAt_injective _⟩, fun _ => reachable_iff_shows,
    fun key c below => ?_, ?_, ?_, skipped_reordered_perm hd hp, fun i j hij => ?_, fun top => ?_⟩
  · rw [shows_iff, shows_iff, ← reachable_reordered_iff hd hp, converted?_reordered hd hp,
      dependencies_reordered hd hp, isConvertible_reordered hd hp]
  · rw [rootKeys_reordered hd hp]
    apply List.filter_congr
    intro key hk
    rw [Bool.eq_iff_iff, decide_eq_true_iff, mem_rootKeys_iff hd hp, Bool.and_eq_true]
    exact ⟨fun h => ⟨hk, h⟩, fun h => h.2⟩
  · rw [rootKeys_reordered hd hp, rootKeys_of_nodup hd]
    exact (hp.map Package.key).filter _
  · -- what stands for the same key is what the old number became
    obtain rfl : j = φ i := by
      apply keyAt_injective
      rw [hφ, hij]
    exact Graph.sameCounts_of_embeds hembeds hbij.1 i
  · exact Graph.sameCounts_above top (fun i => r.reaches_of_reachable (r.reachable_keyAt i) i rfl)
      (fun i => reaches_of_reachable _ (reachable_keyAt _ i) i rfl)
      (hembeds.components_perm hbij)

/-- A lock file with a cycle, with a package that two others share, and with
one that cannot be converted. -/
def looped : Result where
  target := .ofText "package-lock.json"
  type := .ofText "npm"
  class_ := .ofText "lang-pkgs"
  packages := [
    { Package.plain "app" "1" with dependsOn := [.text "lib@1", .text "bad@1"] },
    { Package.plain "lib" "1" with indirect := true, dependsOn := [.text "util@1"] },
    { Package.plain "bad" "1" with purl := .ofText "npm/bad@1", dependsOn := [.text "util@1"] },
    { Package.plain "util" "1" with indirect := true, dependsOn := [.text "lib@1"] },
    { Package.plain "tool" "1" with dependsOn := [.text "util@1"] }]
  vulnerabilities := []

theorem looped_reversed_alike : (looped.packages.map Package.key).Nodup
    ∧ looped.packages.reverse.Perm looped.packages
    ∧ looped.rootKeys = [.text "app@1", .text "tool@1"]
    ∧ (looped.withPackages looped.packages.reverse).rootKeys = [.text "tool@1", .text "app@1"]
    ∧ looped.BuiltAlike (looped.withPackages looped.packages.reverse) := by
  have hd : (looped.packages.map Package.key).Nodup := by decide +kernel
  have hp : looped.packages.reverse.Perm looped.packages := List.reverse_perm _
  refine ⟨hd, hp, ?_, ?_, reordered_alike looped _ hd hp⟩
  · rw [rootKeys_of_nodup hd]
    decide +kernel
  · rw [rootKeys_reordered hd hp]
    decide +kernel

end Result

end ComponentGraph
