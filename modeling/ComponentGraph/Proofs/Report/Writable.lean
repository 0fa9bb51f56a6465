/-
  ComponentGraph.Proofs.Report.Writable
  ────────────────────────────────
  **WHICH REPORTS HAVE A DOCUMENT.**

  A package URL is read when its package is converted, and written when the
  document is.  Reading lets every name pass; writing does not: in one
  ecosystem a name that is not plain has no written form.  Such a name in one
  package, or in the root, leaves the whole report without a document, and
  nothing else does (`document_ok_iff`).
-/
import ComponentGraph.Proofs.Report.Assembly
import ComponentGraph.Proofs.View.Pen

namespace ComponentGraph

namespace Purl

/-- Is the name plain?  In lower case it consists of letters, digits and
underscores. -/
def isPlain (p : Purl) : Bool :=
  Text.lowercase p.name.toList ≠ []
    && (Text.lowercase p.name.toList).all fun c => c.isAlphanum || c = '_'

/-- **A package URL may be written, unless its ecosystem asks for a plain name
and it has none.** -/
theorem isWritable_iff_isPlain (p : Purl) : p.isWritable ↔ (p.type = "pub" → p.isPlain) := by
  unfold isWritable allowsName settled spelledName isPlain
  by_cases h : p.type = "pub"
  · simp [h]
  · simp [h]

end Purl

theorem Component.isWritable_iff_isPlain (c : Component) :
    c.isWritable ↔ ∀ p, c.purl = some p → p.type = "pub" → p.isPlain := by
  cases h : c.purl with
  | none => simp [isWritable, h]
  | some p => simp [isWritable, h, Purl.isWritable_iff_isPlain]

namespace Report

/-- What stands above the packages of a result has no package URL. -/
theorem isWritable_of_wraps {os : Option OS} {r : Result} {c : Component} (h : r.Wraps os c) :
    c.isWritable := by
  obtain ⟨-, rfl⟩ := h
  have hp : (Result.component os r.target r.type r.class_).purl = none := by
    unfold Result.component
    split
    · cases os <;> rfl
    · split <;> rfl
  rw [Component.isWritable, hp]
  rfl

/-- Does this component of the report have a package URL, its root or one of
the packages that it holds? -/
def Identifies (r : Report) (c : Component) : Prop :=
  r.artifact.root = .ok c ∨ ∃ result ∈ r.results, result.Converts c

/-- **The graph of a report has a document just if, where a plain name is asked
for, the root and all packages in it have one.**  Else a name is to blame. -/
theorem document_ok_iff (r : Report) (a : Assembly) (timestamp : String)
    (h : r.assemble = .ok a) :
    ((∃ doc, a.graph.graph.document a.graph.root timestamp = .ok doc)
      ↔ ∀ c, r.Identifies c → ∀ p, c.purl = some p → p.type = "pub" → p.isPlain)
    ∧ ∀ e, a.graph.graph.document a.graph.root timestamp = .error e → e = .badName := by
  have hdoc : (∃ doc, a.graph.graph.document a.graph.root timestamp = .ok doc)
      ↔ ∃ e, a.graph.graph.entry a.graph.root = .ok e := by
    unfold Graph.document
    cases a.graph.graph.entry a.graph.root <;> simp [Except.map]
  have hall : (∀ i, a.graph.graph.Reaches [a.graph.root] i → (a.graph.graph.component i).isWritable)
      ↔ ∀ c, a.graph.toForest.Holds c → c.isWritable := by
    constructor
    · rintro hw c ⟨i, hi, rfl⟩
      exact hw i hi
    · intro hw i hi
      exact hw _ ⟨i, hi, rfl⟩
  constructor
  · rw [hdoc, Graph.entry_ok_iff, hall]
    -- the graph holds the root, what is above packages, and the packages
    constructor
    · intro hw c hc
      rw [← Component.isWritable_iff_isPlain]
      apply hw
      rw [holds_graph_iff h]
      rcases hc with hroot | ⟨result, hm, hc⟩
      · exact .root hroot
      · exact .package hm hc
    · intro hp c hc
      rw [holds_graph_iff h] at hc
      cases hc with
      | root hroot => exact c.isWritable_iff_isPlain.2 (hp c (.inl hroot))
      | wrap hm hw => exact isWritable_of_wraps hw
      | package hm hc => exact c.isWritable_iff_isPlain.2 (hp c (.inr ⟨_, hm, hc⟩))
  · intro e he
    unfold Graph.document at he
    cases hentry : a.graph.graph.entry a.graph.root with
    | ok entry => simp [hentry, Except.map] at he
    | error e' =>
      rw [hentry] at he
      obtain rfl := Except.error.inj he
      exact Graph.entry_error _ _ hentry

/-- A package whose name has a dash where only a plain name can be written. -/
def dashedPackage : Package where
  id := none
  name := .ofText "foo-bar"
  version := .ofText "1.0"
  release := none
  epoch := none
  purl := .ofText "pkg:pub/foo-bar@1.0"
  filePath := none
  sourceName := none
  sourceVersion := none
  sourceRelease := none
  sourceEpoch := none
  modularityLabel := none
  layerDigest := none
  layerDiffId := none
  maintainer := none
  digest := none
  licenses := none
  indirect := false
  dependsOn := []

/-- A lock file with this package. -/
def dashedResult : Result where
  target := .ofText "pubspec.lock"
  type := .ofText "pub"
  class_ := .ofText "lang-pkgs"
  packages := [dashedPackage]
  vulnerabilities := []

/-- A report on a directory with this lock file. -/
def dashed : Report where
  artifact := {
    name := .ofText "app"
    kind := .filesystem
    schemaVersion := none
    metadata := {}
    declaration := none }
  results := [dashedResult]

theorem dashed_has_no_document : ∃ a, dashed.assemble = .ok a
    ∧ ∀ timestamp, a.graph.graph.document a.graph.root timestamp = .error .badName := by
  obtain ⟨a, ha⟩ : ∃ a, dashed.assemble = .ok a := ⟨_, rfl⟩
  refine ⟨a, ha, fun timestamp => ?_⟩
  obtain ⟨hok, herror⟩ := document_ok_iff dashed a timestamp ha
  have hpurl : (dashedResult.converted? (.text "foo-bar@1.0")).map (·.purl)
      = some (some ⟨"pub", none, "foo-bar", some "1.0", none, none⟩) := by
    decide +kernel
  obtain ⟨c, hc, hp⟩ := Option.map_eq_some_iff.1 hpurl
  have hreach : dashedResult.Reachable (.text "foo-bar@1.0") :=
    .candidate (by decide +kernel) (by rw [Result.isConvertible, hc]; rfl)
  have hcontributes : dashed.Identifies c :=
    .inr ⟨dashedResult, List.mem_cons_self, by decide, _, hreach, hc⟩
  have hdash : Purl.isPlain ⟨"pub", none, "foo-bar", some "1.0", none, none⟩ = false := by
    decide +kernel
  cases hdoc : a.graph.graph.document a.graph.root timestamp with
  | ok doc =>
    -- the package's name would have to be plain
    have hplain := hok.1 ⟨doc, hdoc⟩ c hcontributes _ hp rfl
    rw [hdash] at hplain
    contradiction
  | error e => rw [herror e hdoc]

end Report

end ComponentGraph
