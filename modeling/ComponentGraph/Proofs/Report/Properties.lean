/-
  ComponentGraph.Proofs.Report.Properties
  ────────────────────────────────
  **WHICH PROPERTIES TELL SOMETHING.**

  Components get their properties in four places: the root of an artifact, the
  component above the packages of a result, each package, and the component
  that a bill of materials declares.  Three of them leave out what tells
  nothing; the declared component is taken over as it is.  So the graph of a
  report has proper properties throughout, unless the declaration itself has
  another one (`properties_proper_iff`).
-/
import ComponentGraph.Proofs.Package.Matching
import ComponentGraph.Proofs.Report.Assembly

namespace ComponentGraph

/-! ## §1. Proper properties. -/

/-- A property of this tool that tells something: its value is not empty, and
if it is a source epoch, not zero. -/
structure Property.IsProper (p : Property) : Prop where
  scope : p.scope = toolScope
  value : ∃ s, p.value = .ofText s ∧ s ≠ ""
  epoch : ¬ (p.name = sourceEpoch ∧ p.value = .ofText "0")

namespace Property

/-- What the filter keeps of the properties that the tool writes is proper. -/
theorem isProper_of_mem_telling {ps : List Property} (hps : ∀ p ∈ ps, ∃ name f, p = ofField name f)
    {p : Property} (h : p ∈ telling ps) : p.IsProper := by
  obtain ⟨hm, htelling⟩ := List.mem_filter.1 h
  obtain ⟨name, f, rfl⟩ := hps p hm
  unfold isTelling at htelling
  rw [Bool.not_eq_true', Bool.or_eq_false_iff, decide_eq_false_iff_not] at htelling
  refine ⟨rfl, ⟨_, rfl, ?_⟩, ?_⟩
  · rintro he
    exact htelling.1 (congrArg Field.ofText he)
  · rintro ⟨hname, hvalue⟩
    simp [hname, hvalue] at htelling

end Property

/-! ## §2. Where properties come from. -/

theorem Artifact.mem_listed {name : String} {items : List Json} {p : Property}
    (h : p ∈ listed name items) : ∃ f, p = .ofField name f := by
  unfold listed at h
  split at h
  · contradiction
  · exact ⟨_, List.mem_singleton.1 h⟩

theorem Artifact.isProper_of_mem_properties {a : Artifact} {p : Property} (h : p ∈ a.properties) :
    p.IsProper := by
  refine Property.isProper_of_mem_telling (fun q hq => ?_) h
  -- each property is written with the tool's scope
  rw [List.mem_append, List.mem_append, List.mem_append, List.mem_append, List.mem_append] at hq
  rcases hq with ((((hq | hq) | hq) | hq) | hq) | hq
  · exact ⟨_, _, List.mem_singleton.1 hq⟩
  · split at hq
    · exact ⟨_, _, List.mem_singleton.1 hq⟩
    · contradiction
  · split at hq
    · exact ⟨_, _, List.mem_singleton.1 hq⟩
    · contradiction
  · exact ⟨_, mem_listed hq⟩
  · exact ⟨_, mem_listed hq⟩
  · exact ⟨_, mem_listed hq⟩

theorem Result.isProper_of_mem_properties {os : Option OS} {target type class_ : Field}
    {p : Property} (h : p ∈ (component os target type class_).properties) : p.IsProper := by
  have hprops : (component os target type class_).properties
      = Property.telling [.ofField "Type" type, .ofField "Class" class_] := by
    unfold component
    split
    · cases os <;> rfl
    · split <;> rfl
  rw [hprops] at h
  refine Property.isProper_of_mem_telling (fun q hq => ?_) h
  simp only [List.mem_cons, List.not_mem_nil, or_false] at hq
  rcases hq with rfl | rfl
  · exact ⟨_, _, rfl⟩
  · exact ⟨_, _, rfl⟩

theorem Package.isProper_of_mem_properties {package : Package} {type : Field} {key : Json}
    {p : Property} (h : p ∈ package.properties type key) : p.IsProper := by
  refine Property.isProper_of_mem_telling (fun q hq => ?_) h
  obtain ⟨described, -, rfl⟩ := List.mem_map.1 hq
  exact ⟨_, _, rfl⟩

theorem Result.isProper_of_wraps {os : Option OS} {r : Result} {c : Component} (h : r.Wraps os c)
    {p : Property} (hp : p ∈ c.properties) : p.IsProper := by
  obtain ⟨-, rfl⟩ := h
  exact isProper_of_mem_properties hp

theorem Result.isProper_of_converts {r : Result} {c : Component} (h : r.Converts c)
    {p : Property} (hp : p ∈ c.properties) : p.IsProper := by
  obtain ⟨-, key, -, hc⟩ := h
  obtain ⟨package, identity, licenses, rfl⟩ := eq_library_of_converted hc
  exact package.isProper_of_mem_properties hp

/-! ## §3. What a bill of materials declares. -/

namespace Declaration

/-- Does a declared property tell something?  Its name may carry the tool's
scope or not. -/
def Tells (name : String) (value : Field) : Prop :=
  (∃ s, value = .ofText s ∧ s ≠ "") ∧ ¬ (bareName name = Property.sourceEpoch ∧ value = .ofText "0")

theorem isProper_property_iff (name : String) (value : Field) :
    (property name value).IsProper ↔ Tells name value := by
  constructor
  · intro h
    exact ⟨h.value, h.epoch⟩
  · rintro ⟨hvalue, hepoch⟩
    exact ⟨rfl, hvalue, hepoch⟩

/-- A declared component has just the declared properties. -/
theorem properties_of_component {d : Declaration} {c : Component} (h : d.component = .ok c) :
    c.properties = d.properties.map fun (name, value) => property name value := by
  unfold component at h
  -- with or without a package URL
  split at h
  · obtain ⟨purl, -, h⟩ := bind_eq_ok_iff.1 h
    rw [← Except.ok.inj h]
  · obtain ⟨purl, -, h⟩ := bind_eq_ok_iff.1 h
    rw [← Except.ok.inj h]

end Declaration

namespace Report

variable {r : Report} {root c : Component} {p : Property}

/-- All that a scanned bill of materials declares tells something. -/
def TellsThroughout (r : Report) : Prop :=
  r.artifact.kind = .cyclonedx → ∀ d, r.artifact.declaration = some d →
    ∀ q ∈ d.properties, Declaration.Tells q.1 q.2

theorem properties_of_declaration {d : Declaration} (hk : r.artifact.kind = .cyclonedx)
    (hd : r.artifact.declaration = some d) (h : r.artifact.root = .ok root) :
    root.properties = d.properties.map fun (name, value) => Declaration.property name value := by
  unfold Artifact.root at h
  rw [hk, hd] at h
  cases hc : d.component with
  | error e => simp [hc] at h
  | ok c =>
    simp only [hc, mapError_ok, Except.ok.injEq] at h
    rw [← h, Declaration.properties_of_component hc]

theorem properties_of_ne (hk : r.artifact.kind ≠ .cyclonedx) (h : r.artifact.root = .ok root) :
    root.properties = r.artifact.properties := by
  unfold Artifact.root at h
  split at h
  · contradiction
  · contradiction
  · split at h
    · obtain ⟨purl, -, h⟩ := bind_eq_ok_iff.1 h
      rw [← Except.ok.inj h]
    · obtain ⟨purl, -, h⟩ := bind_eq_ok_iff.1 h
      rw [← Except.ok.inj h]

/-! ## §4. The whole graph. -/

/-- A property in the graph is proper, or it was declared for the root. -/
theorem isProper_or_declared {a : Assembly} (h : r.assemble = .ok a)
    (hc : a.graph.toForest.Holds c) (hp : p ∈ c.properties) :
    p.IsProper ∨ r.artifact.kind = .cyclonedx ∧ r.artifact.root = .ok c
      ∧ ∃ d, r.artifact.declaration = some d
        ∧ ∃ q ∈ d.properties, p = Declaration.property q.1 q.2 := by
  rw [holds_graph_iff h] at hc
  cases hc with
  | wrap _ hw => exact .inl (Result.isProper_of_wraps hw hp)
  | package _ hc => exact .inl (Result.isProper_of_converts hc hp)
  | root hroot =>
    by_cases hk : r.artifact.kind = .cyclonedx
    · cases hd : r.artifact.declaration with
      | none => simp [Artifact.root, hk, hd] at hroot
      | some d =>
        rw [properties_of_declaration hk hd hroot] at hp
        obtain ⟨q, hq, rfl⟩ := List.mem_map.1 hp
        exact .inr ⟨hk, hroot, d, rfl, q, hq, rfl⟩
    · rw [properties_of_ne hk hroot] at hp
      exact .inl (Artifact.isProper_of_mem_properties hp)

/-- **All properties in the graph of a report are this tool's.  Those that tell
nothing are declared ones of the root; so all of them tell something just if
the declaration does throughout.** -/
theorem properties_proper_iff (r : Report) (a : Assembly) (h : r.assemble = .ok a) :
    (∀ c, a.graph.toForest.Holds c → ∀ p ∈ c.properties, p.scope = toolScope)
    ∧ (∀ c, a.graph.toForest.Holds c → ∀ p ∈ c.properties, ¬ p.IsProper →
        r.artifact.kind = .cyclonedx ∧ r.artifact.root = .ok c)
    ∧ ((∀ c, a.graph.toForest.Holds c → ∀ p ∈ c.properties, p.IsProper) ↔ r.TellsThroughout) := by
  refine ⟨fun c hc p hp => ?_, fun c hc p hp hn => ?_, ?_⟩
  · rcases isProper_or_declared h hc hp with hproper | ⟨-, -, d, -, q, -, rfl⟩
    · exact hproper.scope
    · rfl
  · rcases isProper_or_declared h hc hp with hproper | ⟨hk, hroot, -⟩
    · contradiction
    · exact ⟨hk, hroot⟩
  · constructor
    · intro hall hk d hd q hq
      -- what is declared stands at the root
      obtain ⟨root, hroot, -⟩ := graph_of_assemble h
      have hc : a.graph.toForest.Holds root := (holds_graph_iff h root).2 (.root hroot)
      rw [← Declaration.isProper_property_iff]
      apply hall root hc
      rw [properties_of_declaration hk hd hroot]
      exact List.mem_map.2 ⟨q, hq, rfl⟩
    · intro htells c hc p hp
      rcases isProper_or_declared h hc hp with hproper | ⟨hk, -, d, hd, q, hq, rfl⟩
      · exact hproper
      · exact (Declaration.isProper_property_iff _ _).2 (htells hk d hd q hq)

/-- A bill of materials with an empty note on its component. -/
def noted : Report where
  artifact := {
    name := .ofText "app"
    kind := .cyclonedx
    schemaVersion := none
    metadata := {}
    declaration := some {
      name := .ofText "app"
      group := none
      version := none
      type := none
      purl := none
      properties := [("note", .ofText "")] } }
  results := []

theorem noted_keeps_empty : ∃ a, noted.assemble = .ok a
    ∧ ¬ ∀ c, a.graph.toForest.Holds c → ∀ p ∈ c.properties, p.IsProper := by
  obtain ⟨a, ha⟩ : ∃ a, noted.assemble = .ok a := ⟨_, rfl⟩
  refine ⟨a, ha, fun hall => ?_⟩
  have htells := (properties_proper_iff noted a ha).2.2.1 hall
  obtain ⟨⟨s, hs, hne⟩, -⟩ := htells rfl _ rfl ("note", .ofText "") List.mem_cons_self
  exact hne (Json.text.inj (Option.some.inj hs)).symm

end Report

end ComponentGraph
