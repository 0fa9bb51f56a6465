/-
  ComponentGraph.Proofs.Package.Purging
  ────────────────────────────────
  **WHAT BAD PACKAGES DO TO THE OTHERS.**

  A key is bad if its last package cannot be converted.  Bad packages stand in
  the index, in the dependencies of others and among their parents; without
  them the good ones convert and depend as before.  Only the candidates can
  differ: an indirect package that none but bad packages need is hidden by
  them, and becomes a root when they go.

      purged             — a result without its bad packages
      agreesWith_purged  — the same dependency graph, if nobody is hidden
      purged_alike_iff   — when nothing shows that bad packages were there
-/
import ComponentGraph.Proofs.Package.Likeness
import ComponentGraph.Proofs.Package.Replacement

namespace ComponentGraph

namespace Result

variable {r : Result} {key : Json} {p : Package}

/-! ## §1. Good and bad keys. -/

/-- Is this an indexed key whose last package cannot be converted? -/
def isBad (r : Result) (key : Json) : Bool := (r.lastPackage? key).isSome && !r.isConvertible key

/-- The result without the packages of bad keys. -/
def purged (r : Result) : Result :=
  { r with packages := r.packages.filter fun p => !r.isBad p.key }

theorem isBad_of_isConvertible (h : r.isConvertible key) : r.isBad key = false := by
  simp [isBad, h]

/-! ## §2. What stays as it is. -/

theorem mem_packages_purged_iff : p ∈ r.purged.packages ↔ p ∈ r.packages ∧ r.isBad p.key = false := by
  show p ∈ r.packages.filter _ ↔ _
  rw [List.mem_filter, Bool.not_eq_true']

theorem keys_purged : r.purged.keys = r.keys.filter fun key => !r.isBad key := by
  show ((r.packages.filter _).map Package.key).eraseDups = _
  rw [keys, ← eraseDups_filter, List.filter_map]
  rfl

theorem lastPackage?_purged : r.purged.lastPackage? key
    = if r.isBad key then none else r.lastPackage? key := by
  show (r.packages.filter _).reverse.find? _ = _
  rw [← List.filter_reverse, List.find?_filter, lastPackage?]
  split
  · rename_i hb
    rw [List.find?_eq_none]
    rintro q - hq
    have hq : r.isBad q.key = false ∧ q.key = key := by simpa using hq
    rw [hq.2, hb] at hq
    exact Bool.noConfusion hq.1
  · rename_i hb
    -- the packages of a good key all stay
    congr 1
    funext q
    by_cases hq : q.key = key
    · simp [hq, hb]
    · simp [hq]

/-- Every key converts as before; the bad ones did not convert before. -/
theorem converted?_purged : r.purged.converted? key = r.converted? key := by
  unfold converted?
  rw [lastPackage?_purged]
  split
  · rename_i hb
    have hb : r.isConvertible key = false := by
      rw [isBad, Bool.and_eq_true, Bool.not_eq_true'] at hb
      exact hb.2
    rw [isConvertible, Option.isSome_eq_false_iff, Option.isNone_iff_eq_none, converted?] at hb
    rw [hb]
    rfl
  · rfl

theorem isConvertible_purged : r.purged.isConvertible = r.isConvertible := by
  funext key
  rw [isConvertible, isConvertible, converted?_purged]

theorem dependencies_purged (h : r.isConvertible key) :
    r.purged.dependencies key = r.dependencies key := by
  rw [dependencies, lastPackage?_purged, isBad_of_isConvertible h]
  rfl

theorem lastPackage?_purged_of_isConvertible (h : r.isConvertible key) :
    r.purged.lastPackage? key = r.lastPackage? key := by
  rw [lastPackage?_purged, isBad_of_isConvertible h]
  rfl

theorem isNeeded_purged_iff :
    r.purged.isNeeded key ↔ ∃ q ∈ r.packages, key ∈ q.dependsOn ∧ r.isBad q.key = false := by
  simp only [isNeeded_iff, mem_packages_purged_iff]
  constructor
  · rintro ⟨q, ⟨hq, hb⟩, hd⟩
    exact ⟨q, hq, hd, hb⟩
  · rintro ⟨q, hq, hd, hb⟩
    exact ⟨q, ⟨hq, hb⟩, hd⟩

/-- Candidates stay candidates. -/
theorem isCandidate_purged_of_isCandidate (hconv : r.isConvertible key) (h : r.isCandidate key) :
    r.purged.isCandidate key := by
  refine isCandidate_of_isCandidate (lastPackage?_purged_of_isConvertible hconv)
    (fun _ _ _ hn => ?_) h
  obtain ⟨q, hq, hd, -⟩ := isNeeded_purged_iff.1 hn
  exact isNeeded_iff.2 ⟨q, hq, hd⟩

/-- The roots of what is left are good keys of the result. -/
theorem map_roots_purged : r.purged.forest.roots.map r.purged.keyAt
    = r.keys.filter fun k => r.purged.isCandidate k && r.isConvertible k := by
  rw [map_roots, keys_purged, List.filter_filter, isConvertible_purged]
  apply List.filter_congr
  intro k _
  cases hc : r.isConvertible k with
  | false => simp
  | true => simp [isBad_of_isConvertible hc]

/-- Nothing more is left out. -/
theorem skipped_purged : r.purged.skipped = [] := by
  rw [← List.map_eq_nil_iff (f := Skip.key), map_key_skipped, List.eq_nil_iff_forall_not_mem]
  intro k hk
  rw [mem_refused_iff, keys_purged, List.mem_filter, isConvertible_purged] at hk
  obtain ⟨-, ⟨hk, hb⟩, hc⟩ := hk
  rw [mem_keys_iff] at hk
  simp [isBad, hk, hc] at hb

/-! ## §3. What may change. -/

/-- Is nobody hidden by bad packages alone?  A good indirect package that is
needed at all is needed by a good one. -/
def Unspoiled (r : Result) : Prop :=
  ∀ p ∈ r.survivors, r.isConvertible p.key → p.indirect → (∃ q ∈ r.packages, q.Needs p) →
    ∃ q ∈ r.packages, q.Needs p ∧ r.isBad q.key = false

theorem isCandidate_purged (h : r.Unspoiled) (hconv : r.isConvertible key) :
    r.purged.isCandidate key = r.isCandidate key := by
  rw [Bool.eq_iff_iff]
  have hl := lastPackage?_purged_of_isConvertible hconv
  refine ⟨isCandidate_of_isCandidate hl.symm fun p hp hi hn => ?_,
    isCandidate_purged_of_isCandidate hconv⟩
  rw [hl] at hp
  obtain rfl := (mem_of_lastPackage? hp).2
  exact isNeeded_purged_iff.2 (h p (mem_survivors_iff.2 hp) hconv hi (isNeeded_iff.1 hn))

theorem reachable_purged_iff (h : r.Unspoiled) : r.Reachable key ↔ r.purged.Reachable key := by
  constructor
  · intro hr
    induction hr with
    | candidate hc hconv =>
      refine .candidate ?_ ?_
      · rw [isCandidate_purged h hconv]
        exact hc
      · rw [isConvertible_purged]
        exact hconv
    | dependency ho hd hconv ih =>
      refine .dependency ih ?_ ?_
      · rw [dependencies_purged ho.isConvertible]
        exact hd
      · rw [isConvertible_purged]
        exact hconv
  · intro hr
    induction hr with
    | candidate hc hconv =>
      rw [isConvertible_purged] at hconv
      rw [isCandidate_purged h hconv] at hc
      exact .candidate hc hconv
    | dependency ho hd hconv ih =>
      rw [isConvertible_purged] at hconv
      rw [dependencies_purged ih.isConvertible] at hd
      exact .dependency ih hd hconv

/-- **What is left has the same dependency graph**, if nobody was hidden. -/
theorem agreesWith_purged (h : r.Unspoiled) : r.AgreesWith r.purged where
  reachable_iff _ := reachable_purged_iff h
  converted _ _ := converted?_purged.symm
  dependencies key hr := by rw [dependencies_purged hr.isConvertible, isConvertible_purged]
  roots := by
    have hs := r.purged.map_roots
    rw [← hs, map_roots_purged]
    apply List.filter_congr
    intro k _
    cases hc : r.isConvertible k with
    | false => simp
    | true => rw [isCandidate_purged h hc]

/-- **Bad packages harm nothing else just if every good indirect package that
some package needs is needed by a good one.**  Without them nothing is left
out. -/
theorem purged_alike_iff (r : Result) :
    (r.forest.Isomorphic r.purged.forest ↔ r.Unspoiled) ∧ r.purged.skipped = [] := by
  refine ⟨⟨fun hiso p hp hconv hi hneed => ?_, fun h => ?_⟩, skipped_purged⟩
  · have hl := mem_survivors_iff.1 hp
    have hk : p.key ∈ r.keys := by
      rw [mem_keys_iff, hl]
      rfl
    -- the package is no root, so it is none without the bad packages
    by_contra hno
    have hn : r.isNeeded p.key := isNeeded_iff.2 hneed
    have hn' : r.purged.isNeeded p.key = false := by
      rw [← Bool.not_eq_true, isNeeded_purged_iff]
      exact hno
    have hc' : r.purged.isCandidate p.key := by
      rw [isCandidate, lastPackage?_purged_of_isConvertible hconv, hl, Option.any_some, hn']
      simp
    have hc := isCandidate_of_isomorphic hiso map_roots_purged
      (fun _ => isCandidate_purged_of_isCandidate) hk hconv hc'
    simp [isCandidate, hl, hi, hn] at hc
  · exact (agreesWith_purged h).isomorphic

/-- A lock file with a bad package on a cycle, which was listed as a good one
before. -/
def cracked : Result where
  target := .ofText "package-lock.json"
  type := .ofText "npm"
  class_ := .ofText "lang-pkgs"
  packages := [
    { Package.plain "app" "1" with dependsOn := [.text "bad@1", .text "lib@1"] },
    Package.plain "bad" "1",
    { Package.plain "lib" "1" with indirect := true, dependsOn := [.text "bad@1"] },
    { Package.plain "bad" "1" with
      purl := .ofText "npm/bad@1", dependsOn := [.text "lib@1", .text "bad@1"] }]
  vulnerabilities := []

theorem cracked_alike : cracked.isBad (.text "bad@1")
    ∧ cracked.forest.Isomorphic cracked.purged.forest ∧ cracked.purged.skipped = [] := by
  have h : cracked.Unspoiled := by
    unfold Unspoiled
    decide +kernel
  exact ⟨by decide +kernel, (purged_alike_iff cracked).1.2 h, (purged_alike_iff cracked).2⟩

end Result

end ComponentGraph
