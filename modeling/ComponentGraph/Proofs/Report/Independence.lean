/-
  ComponentGraph.Proofs.Report.Independence
  ────────────────────────────────
  **RESULTS ARE INDEPENDENT OF EACH OTHER.**

  The graph of a report is made of what its results contribute, whatever
  packages they have in common.  Reports with the same artifact, one with the
  first results and one with the others, give its two parts:

      contributions_splits    — first results and others, side by side
      contributions_madeOf    — one part for each result
      Independent             — what it is for results to be independent
      results_independent     — the results of a report are
-/
import ComponentGraph.Proofs.Graph.Parts
import ComponentGraph.Proofs.Report.Accounting

namespace ComponentGraph

namespace Report

/-! ## §1. Below the root. -/

/-- **The contributions of some results are made of those of the first and of
the others.** -/
theorem contributions_splits (os : Option OS) (first others : List Result) :
    ∃ f g, (contributions os (first ++ others)).graph.Splits (contributions os first).graph
        (contributions os others).graph f g
      ∧ (contributions os (first ++ others)).roots
        = (contributions os first).roots.map f ++ (contributions os others).roots.map g := by
  -- a result at the end of the others is beside all that came before
  induction others using List.reverseRecOn with
  | nil =>
    rw [List.append_nil]
    refine ⟨_, _, Graph.splits_empty _, ?_⟩
    rw [List.map_id]
    exact (List.append_nil _).symm
  | append_singleton others r ih =>
    obtain ⟨f, g, hsplit, hroots⟩ := ih
    rw [← List.append_assoc, contributions_concat, contributions_concat]
    have hrow := congrArg (fun row => row.map (Fin.castAdd (r.contribution os).size)
      ++ (r.contribution os).roots.map (Fin.natAdd _)) hroots
    exact ⟨_, _, hsplit.append (r.contribution os).graph,
      hrow.trans (Graph.map_split_append f g _ _ _)⟩

/-- **Each result contributes a part of its own.** -/
theorem contributions_madeOf (os : Option OS) (results : List Result) :
    (contributions os results).graph.MadeOf (contributions os results).roots
      (results.map (·.contribution os)) := by
  induction results using List.reverseRecOn with
  | nil => exact Graph.madeOf_empty
  | append_singleton results r ih =>
    rw [contributions_concat, List.map_append, List.map_singleton]
    exact ih.concat (r.contribution os)

/-! ## §2. The graph of a report. -/

/-- **The results of a report are independent of each other.** -/
structure Independent (r : Report) (root : Component) (a : Assembly) : Prop where
  /-- The root is the artifact's. -/
  root : a.graph.graph.component a.graph.root = root
  /-- First results and others give two parts that share the root, and leave out
  what is left out, one after the other. -/
  joins : ∀ first others, r.results = first ++ others → ∃ a₁ a₂,
    { r with results := first }.assemble = .ok a₁ ∧ { r with results := others }.assemble = .ok a₂
      ∧ (∃ f g, a.graph.Joins a₁.graph a₂.graph f g) ∧ a.skipped = a₁.skipped ++ a₂.skipped
  /-- Each result has its own components below the root. -/
  parts : a.graph.graph.MadeOf (a.graph.graph.children a.graph.root)
    (r.results.map (·.contribution r.artifact.metadata.os))
  /-- What is below the root does not reach it. -/
  root_above : ∀ i, a.graph.graph.Reaches (a.graph.graph.children a.graph.root) i →
    ¬ a.graph.graph.Reaches [i] a.graph.root

/-- **The results of a report are independent of each other**, if the artifact
has a root. -/
theorem results_independent {r : Report} {root : Component} (h : r.artifact.root = .ok root) :
    ∃ a, r.assemble = .ok a ∧ r.Independent root a := by
  refine ⟨_, assemble_of_root h, ?_, ?_, ?_, ?_⟩
  · exact Graph.component_aboveRoot root _ _
  · intro first others hresults
    obtain ⟨f, g, hsplit, hroots⟩ := contributions_splits r.artifact.metadata.os first others
    have hjoins := Rooted.joins_above root hsplit hroots
    rw [hresults]
    exact ⟨_, _, assemble_of_root h, assemble_of_root h, ⟨_, _, hjoins⟩, List.flatMap_append⟩
  · exact Rooted.madeOf_above root (contributions_madeOf r.artifact.metadata.os r.results)
  · exact Rooted.not_reaches_above root _

theorem mixed_results_independent : ∃ root a, mixed.artifact.root = .ok root
    ∧ mixed.assemble = .ok a ∧ mixed.Independent root a := by
  obtain ⟨root, hroot⟩ : ∃ root, mixed.artifact.root = .ok root := ⟨_, rfl⟩
  obtain ⟨a, ha, h⟩ := results_independent hroot
  exact ⟨root, a, hroot, ha, h⟩

end Report

end ComponentGraph
