/-
  ComponentGraph.Proofs.Report.Assembly
  ────────────────────────────────
  **WHAT THE GRAPH OF A REPORT HOLDS.**

  The graph of a report holds the artifact's root, and what the results
  contribute: the components above their packages, and the packages that can
  be reached, converted.
-/
import ComponentGraph.Proofs.Graph.Embedding
import ComponentGraph.Proofs.Package.Forest
import ComponentGraph.Report.Assembly

namespace ComponentGraph

/-! ## §1. Results. -/

namespace Result

/-- Does the result put this component above its packages? -/
def Wraps (os : Option OS) (r : Result) (c : Component) : Prop :=
  (placement r.type r.class_ = .operatingSystem ∨ placement r.type r.class_ = .application)
    ∧ c = component os r.target r.type r.class_

/-- Is this what the result contributes for one of its packages? -/
def Converts (r : Result) (c : Component) : Prop :=
  placement r.type r.class_ ≠ .nowhere ∧ ∃ key, r.Reachable key ∧ r.converted? key = some c

/-- A forest holds the packages that can be reached, converted. -/
theorem holds_forest_iff (r : Result) (c : Component) :
    r.forest.Holds c ↔ ∃ key, r.Reachable key ∧ r.converted? key = some c := by
  constructor
  · -- a component stands for its key
    rintro ⟨i, -, rfl⟩
    exact ⟨r.keyAt i, r.reachable_keyAt i, r.converted?_keyAt i⟩
  · rintro ⟨key, hr, hc⟩
    obtain ⟨i, rfl⟩ := (r.reachable_iff_keyAt key).1 hr
    rw [converted?_keyAt, Option.some.injEq] at hc
    exact ⟨i, r.reaches_of_reachable hr i rfl, hc⟩

theorem holds_contribution_iff (os : Option OS) (r : Result) (c : Component) :
    (r.contribution os).Holds c ↔ r.Wraps os c ∨ r.Converts c := by
  unfold contribution Wraps Converts
  rw [← holds_forest_iff]
  cases placement r.type r.class_ with
  | floating => simp
  | operatingSystem => simp [Forest.holds_above]
  | application => simp [Forest.holds_above]
  | nowhere => simp [Forest.not_holds_empty]

end Result

/-! ## §2. Reports. -/

namespace Report

theorem contributions_concat (os : Option OS) (results : List Result) (r : Result) :
    contributions os (results ++ [r]) = (contributions os results).append (r.contribution os) :=
  List.foldl_concat ..

theorem holds_contributions_iff (os : Option OS) (results : List Result) (c : Component) :
    (contributions os results).Holds c ↔ ∃ r ∈ results, r.Wraps os c ∨ r.Converts c := by
  -- the forest grows result by result, so the induction takes the last one
  induction results using List.reverseRecOn with
  | nil => simp [contributions, Forest.not_holds_empty]
  | append_singleton results r ih =>
    rw [contributions_concat, Forest.holds_append, ih, Result.holds_contribution_iff]
    simp [or_and_right, exists_or]

/-- Is this a component that the graph of the report must hold? -/
inductive Supplies (r : Report) : Component → Prop where
  | root {c : Component} : r.artifact.root = .ok c → Supplies r c
  | wrap {c : Component} {result : Result} : result ∈ r.results →
      result.Wraps r.artifact.metadata.os c → Supplies r c
  | package {c : Component} {result : Result} : result ∈ r.results → result.Converts c →
      Supplies r c

theorem assemble_of_root {r : Report} {root : Component} (h : r.artifact.root = .ok root) :
    r.assemble = .ok {
      graph := Rooted.above root (contributions r.artifact.metadata.os r.results)
      skipped := r.results.flatMap Result.contributionSkipped } := by
  unfold assemble
  rw [h]
  rfl

/-- The graph of a report is its root above what the results contribute. -/
theorem graph_of_assemble {r : Report} {a : Assembly} (h : r.assemble = .ok a) :
    ∃ root, r.artifact.root = .ok root
      ∧ a.graph = Rooted.above root (contributions r.artifact.metadata.os r.results) := by
  cases hr : r.artifact.root with
  | error e => simp [assemble, hr, Except.map] at h
  | ok root =>
    rw [assemble_of_root hr] at h
    obtain rfl := Except.ok.inj h
    exact ⟨root, rfl, rfl⟩

/-- **The graph of a report holds the root, and what the results contribute.** -/
theorem holds_graph_iff {r : Report} {a : Assembly} (h : r.assemble = .ok a) (c : Component) :
    a.graph.toForest.Holds c ↔ r.Supplies c := by
  obtain ⟨root, hr, hgraph⟩ := graph_of_assemble h
  rw [hgraph, Forest.holds_above, holds_contributions_iff]
  constructor
  · rintro (rfl | ⟨result, hm, hw | hc⟩)
    · exact .root hr
    · exact .wrap hm hw
    · exact .package hm hc
  · intro hs
    cases hs with
    | root hroot =>
      rw [hr] at hroot
      exact .inl (Except.ok.inj hroot).symm
    | wrap hm hw => exact .inr ⟨_, hm, .inl hw⟩
    | package hm hc => exact .inr ⟨_, hm, .inr hc⟩

end Report

end ComponentGraph
