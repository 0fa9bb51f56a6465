/-
  ComponentGraph.Proofs.Package.Surfacing
  ────────────────────────────────
  **WHICH PACKAGES SURFACE.**

  A package surfaces if the roots of the forest reach its component.  Whether
  it is a root itself is decided by the package alone: an indirect package on
  which something depends is none.  So packages can hide each other for good,
  if they are all indirect and only they depend on each other:

      Hidden                — packages that keep each other hidden
      Hidden.not_reachable  — what is hidden is not reached
      hidden_unreachable    — what is not reached is hidden
      Hidden.exists_ring    — hidden packages hold a dependency cycle

  The last law makes hiding a matter of cycles: where each of them has a
  package that is not indirect, every package surfaces.
-/
import ComponentGraph.Proofs.Package.Forest
import Mathlib.Dynamics.PeriodicPts.Defs
import Mathlib.Order.Preorder.Finite

namespace ComponentGraph

/-! ## §1. Rings in finite sets. -/

/-- **A finite set in which everyone has a successor holds a ring.** -/
theorem exists_ring {α : Type} {S : Set α} {R : α → α → Prop} (hfin : S.Finite)
    (hne : S.Nonempty) (hnext : ∀ x ∈ S, ∃ y ∈ S, R x y) :
    ∃ ring : Cycle α, ring ≠ .nil ∧ ring.Nodup ∧ (∀ x ∈ ring, x ∈ S) ∧ ring.Chain R := by
  classical
  obtain ⟨x, hx⟩ := hne
  have hnext : ∀ x, ∃ y, x ∈ S → y ∈ S ∧ R x y := by
    intro x
    by_cases hx : x ∈ S
    · obtain ⟨y, hy, hr⟩ := hnext x hx
      exact ⟨y, fun _ => ⟨hy, hr⟩⟩
    · exact ⟨x, fun h => absurd h hx⟩
  choose next hnext using hnext
  have hmem : ∀ k, next^[k] x ∈ S := by
    intro k
    induction k with
    | zero => exact hx
    | succ k ih =>
      rw [Function.iterate_succ_apply']
      exact (hnext _ ih).1
  -- going on and on one comes to a place twice, and the way between is a ring
  obtain ⟨i, j, hij, he⟩ := Set.Finite.exists_lt_map_eq_of_forall_mem hmem hfin
  have hback : next^[j - i] (next^[i] x) = next^[i] x := by
    rw [← Function.iterate_add_apply, Nat.sub_add_cancel hij.le]
    exact he.symm
  have hper : next^[i] x ∈ Function.periodicPts next :=
    Function.mk_mem_periodicPts (Nat.sub_pos_of_lt hij) hback
  have hring : ∀ k, next^[k] (next^[i] x) ∈ S := by
    intro k
    rw [← Function.iterate_add_apply]
    exact hmem _
  refine ⟨Function.periodicOrbit next (next^[i] x), ?_, Function.nodup_periodicOrbit, ?_, ?_⟩
  · rw [Ne, Function.periodicOrbit_eq_nil_iff_not_periodic_pt, not_not]
    exact hper
  · intro y hy
    obtain ⟨k, rfl⟩ := (Function.mem_periodicOrbit_iff hper).1 hy
    exact hring k
  · rw [Function.periodicOrbit_chain' R hper]
    intro k
    rw [Function.iterate_succ_apply']
    exact (hnext _ (hring k)).2

namespace Package

/-- Does this package depend on that one? -/
def Needs (p q : Package) : Prop := q.key ∈ p.dependsOn

instance (p q : Package) : Decidable (p.Needs q) :=
  inferInstanceAs (Decidable (q.key ∈ p.dependsOn))

/-- A package of which no more is known than its name and version. -/
def plain (name version : String) : Package where
  id := none
  name := .ofText name
  version := .ofText version
  release := none
  epoch := none
  purl := none
  filePath := none
  sourceName := none
  sourceVersion := none
  sourceRelease := none
  sourceEpoch := none
  modularityLabel := none
  layerDigest := none
  layerDiffId := none
  maintainer := none
  digest := none
  licenses := none
  indirect := false
  dependsOn := []

end Package

namespace Result

variable {r : Result} {p : Package}

/-! ## §2. Results without duplicates. -/

/-- A package is no candidate just if it is indirect and needed. -/
theorem isCandidate_of_mem (hd : (r.packages.map Package.key).Nodup) (hp : p ∈ r.packages) :
    r.isCandidate p.key ↔ ¬ (p.indirect ∧ ∃ q ∈ r.packages, q.Needs p) := by
  have hn : r.isNeeded p.key ↔ ∃ q ∈ r.packages, q.Needs p := isNeeded_iff
  rw [isCandidate, lastPackage?_of_mem hd hp, ← hn, Option.any_some]
  cases p.indirect <;> simp

/-- Who can be reached is the key of a package. -/
theorem Reachable.exists_lastPackage? {key : Json} (h : r.Reachable key) :
    ∃ q, r.lastPackage? key = some q := by
  have hc := h.isConvertible
  unfold Result.isConvertible converted? at hc
  cases hl : r.lastPackage? key with
  | none => simp [hl] at hc
  | some q => exact ⟨q, rfl⟩

/-- The key of a package is reached, and its package is listed. -/
theorem Reachable.exists_mem {key : Json} (h : r.Reachable key) :
    ∃ q ∈ r.packages, q.key = key := by
  obtain ⟨q, hq⟩ := h.exists_lastPackage?
  exact ⟨q, mem_of_lastPackage? hq⟩

/-! ## §3. Surfacing. -/

/-- Does the component of this package have this number in the forest, and do
the roots reach it? -/
structure Surfaces (r : Result) (p : Package) (i : Fin r.forest.size) : Prop where
  key : r.keyAt i = p.key
  component : p.component r.type p.key (r.vulnerabilitiesOf p.key)
    = .ok (r.forest.graph.component i)
  reached : r.forest.graph.Reaches r.forest.roots i

/-- A package surfaces where its key can be reached. -/
theorem surfaces_iff (hd : (r.packages.map Package.key).Nodup) (hp : p ∈ r.packages) :
    (∃ i, r.Surfaces p i) ↔ r.Reachable p.key := by
  constructor
  · rintro ⟨i, hi⟩
    rw [← hi.key]
    exact r.reachable_keyAt i
  · intro h
    obtain ⟨i, hi⟩ := (r.reachable_iff_keyAt _).1 h
    refine ⟨i, hi, ?_, r.reaches_of_reachable h i hi⟩
    have hc := r.converted?_keyAt i
    rw [hi, converted?, lastPackage?_of_mem hd hp, Option.bind_some] at hc
    cases hcomp : p.component r.type p.key (r.vulnerabilitiesOf p.key) with
    | error e => simp [hcomp, Except.toOption] at hc
    | ok c =>
      rw [hcomp] at hc
      rw [Option.some.inj hc]

/-! ## §4. Hiding. -/

/-- Packages that keep each other hidden: they are indirect, something depends
on each of them, and only they do. -/
structure Hidden (r : Result) (S : Set Package) : Prop where
  listed : ∀ p ∈ S, p ∈ r.packages
  indirect : ∀ p ∈ S, p.indirect
  needed : ∀ p ∈ S, ∃ q ∈ r.packages, q.Needs p
  closed : ∀ p ∈ S, ∀ q ∈ r.packages, q.Needs p → q ∈ S

/-- **What is hidden is not reached.** -/
theorem Hidden.not_reachable {S : Set Package} (hd : (r.packages.map Package.key).Nodup)
    (h : r.Hidden S) (hp : p ∈ S) : ¬ r.Reachable p.key := by
  suffices hall : ∀ key, r.Reachable key → ∀ p ∈ S, p.key ≠ key from
    fun hr => hall _ hr p hp rfl
  -- along the way from a candidate: no step of it enters the set
  intro key hr
  induction hr with
  | @candidate key hc _ =>
    rintro p hp rfl
    exact (isCandidate_of_mem hd (h.listed p hp)).1 hc ⟨h.indirect p hp, h.needed p hp⟩
  | @dependency parent key hparent hdep _ ih =>
    rintro p hp rfl
    obtain ⟨q, hq, rfl⟩ := hparent.exists_mem
    rw [dependencies_of_mem hd hq] at hdep
    exact ih q (h.closed p hp q hq hdep) rfl

/-- **What is not reached is hidden**, if every package can be converted. -/
theorem hidden_unreachable (hd : (r.packages.map Package.key).Nodup)
    (hc : ∀ p ∈ r.packages, r.isConvertible p.key) :
    r.Hidden {p | p ∈ r.packages ∧ ¬ r.Reachable p.key} := by
  have hno : ∀ p ∈ r.packages, ¬ r.Reachable p.key →
      p.indirect ∧ ∃ q ∈ r.packages, q.Needs p := by
    intro p hp hr
    by_contra hn
    exact hr (.candidate ((isCandidate_of_mem hd hp).2 hn) (hc p hp))
  refine ⟨fun p hp => hp.1, fun p hp => (hno p hp.1 hp.2).1, fun p hp => (hno p hp.1 hp.2).2, ?_⟩
  intro p hp q hq hn
  refine ⟨hq, fun hr => hp.2 (.dependency hr ?_ (hc p hp.1))⟩
  rw [dependencies_of_mem hd hq]
  exact hn

/-- **Hidden packages hold a dependency cycle.** -/
theorem Hidden.exists_ring {S : Set Package} (h : r.Hidden S) (hne : S.Nonempty) :
    ∃ ring : Cycle Package, ring ≠ .nil ∧ ring.Nodup ∧ (∀ p ∈ ring, p ∈ S)
      ∧ ring.Chain fun p q => q.Needs p := by
  have hfin : S.Finite := (List.finite_toSet r.packages).subset h.listed
  refine ComponentGraph.exists_ring hfin hne ?_
  intro p hp
  obtain ⟨q, hq, hn⟩ := h.needed p hp
  exact ⟨q, h.closed p hp q hq hn, hn⟩

/-- **Every package surfaces unless some packages keep each other hidden.**  So
every package surfaces where each dependency cycle has a package that is not
indirect. -/
theorem all_surface_iff (hd : (r.packages.map Package.key).Nodup)
    (hc : ∀ p ∈ r.packages, r.isConvertible p.key) :
    ((∀ p ∈ r.packages, ∃ i, r.Surfaces p i) ↔ ¬ ∃ S : Set Package, S.Nonempty ∧ r.Hidden S)
    ∧ ((∀ ring : Cycle Package, ring ≠ .nil → ring.Nodup → (∀ p ∈ ring, p ∈ r.packages) →
          ring.Chain (fun p q => q.Needs p) → ∃ p ∈ ring, p.indirect = false) →
        ∀ p ∈ r.packages, ∃ i, r.Surfaces p i) := by
  have hiff : (∀ p ∈ r.packages, ∃ i, r.Surfaces p i)
      ↔ ¬ ∃ S : Set Package, S.Nonempty ∧ r.Hidden S := by
    constructor
    · rintro hall ⟨S, ⟨p, hp⟩, hS⟩
      exact hS.not_reachable hd hp ((surfaces_iff hd (hS.listed p hp)).1 (hall p (hS.listed p hp)))
    · intro hno p hp
      by_contra hs
      rw [surfaces_iff hd hp] at hs
      exact hno ⟨{p | p ∈ r.packages ∧ ¬ r.Reachable p.key}, ⟨p, hp, hs⟩, hidden_unreachable hd hc⟩
  refine ⟨hiff, fun hring => hiff.2 ?_⟩
  rintro ⟨S, hne, hS⟩
  obtain ⟨ring, hnil, hnodup, hsub, hchain⟩ := hS.exists_ring hne
  obtain ⟨p, hp, hdirect⟩ := hring ring hnil hnodup (fun p hp => hS.listed p (hsub p hp)) hchain
  rw [hS.indirect p (hsub p hp)] at hdirect
  contradiction

/-- Two indirect packages that depend on each other. -/
def strandedPair : List Package := [
  { Package.plain "ping" "1" with indirect := true, dependsOn := [.text "pong@1"] },
  { Package.plain "pong" "1" with indirect := true, dependsOn := [.text "ping@1", .text "lib@1"] }]

/-- A package with an indirect dependency, and a pair that nothing else needs. -/
def stranded : Result where
  target := .ofText "package-lock.json"
  type := .ofText "npm"
  class_ := .ofText "lang-pkgs"
  packages := [
    { Package.plain "app" "1" with dependsOn := [.text "lib@1", .text "gone@1"] },
    { Package.plain "lib" "1" with indirect := true }] ++ strandedPair
  vulnerabilities := []

theorem stranded_loses_pair :
    (stranded.packages.map Package.key).Nodup
    ∧ (∀ p ∈ stranded.packages, stranded.isConvertible p.key)
    ∧ ¬ ∀ p ∈ stranded.packages, ∃ i, stranded.Surfaces p i := by
  have hd : (stranded.packages.map Package.key).Nodup := by decide +kernel
  have hc : ∀ p ∈ stranded.packages, stranded.isConvertible p.key := by decide +kernel
  refine ⟨hd, hc, ?_⟩
  rw [(all_surface_iff hd hc).1, not_not]
  refine ⟨{p | p ∈ strandedPair}, ⟨_, List.mem_cons_self⟩, ?_, ?_, ?_, ?_⟩
  · show ∀ p ∈ strandedPair, p ∈ stranded.packages
    decide +kernel
  · show ∀ p ∈ strandedPair, p.indirect
    decide +kernel
  · show ∀ p ∈ strandedPair, ∃ q ∈ stranded.packages, q.Needs p
    decide +kernel
  · show ∀ p ∈ strandedPair, ∀ q ∈ stranded.packages, q.Needs p → q ∈ strandedPair
    decide +kernel

end Result

end ComponentGraph
