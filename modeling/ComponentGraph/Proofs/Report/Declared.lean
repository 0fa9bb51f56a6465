/-
  ComponentGraph.Proofs.Report.Declared
  ────────────────────────────────
  **UNDER WHICH NAMES DECLARED PROPERTIES ARE WRITTEN.**

  A bill of materials declares properties of its component under any names.
  They are written in the tool's scope, which a name loses first where it
  begins with it.  So a name without the scope and the same name behind the
  scope are written alike, and these are all names that meet:

      writtenName          — the name under which a property is written
      IsTwin               — two names that differ by the scope only
      writtenName_eq_iff   — which names are written alike
      document_declares    — what a document shows of what was declared
-/
import ComponentGraph.Proofs.Report.Properties
import ComponentGraph.Proofs.View.Stability

namespace ComponentGraph

/-! ## §1. Names with the tool's scope. -/

/-- Does the name begin with the tool's scope? -/
def CarriesScope (name : String) : Prop := ∃ rest, name = toolScope ++ rest

/-- Does the name begin with the tool's scope, and the rest of it not again? -/
def CarriesScopeOnce (name : String) : Prop := ∃ rest, name = toolScope ++ rest ∧ ¬ CarriesScope rest

theorem carriesScope_iff {name : String} :
    CarriesScope name ↔ toolScope.toList.isPrefixOf name.toList := by
  rw [List.isPrefixOf_iff_prefix]
  constructor
  · rintro ⟨rest, rfl⟩
    exact ⟨rest.toList, String.toList_append.symm⟩
  · rintro ⟨rest, hrest⟩
    refine ⟨String.ofList rest, String.toList_inj.1 ?_⟩
    rw [String.toList_append, String.toList_ofList, hrest]

instance : DecidablePred CarriesScope := fun _ => decidable_of_iff _ carriesScope_iff.symm

/-- A property that the tool writes of its own accord: of an artifact, of the
component above a result, or of a package. -/
inductive Property.IsOwn : Property → Prop where
  | artifact {a : Artifact} {p : Property} (h : p ∈ a.properties) : IsOwn p
  | result {os : Option OS} {target type class_ : Field} {p : Property}
    (h : p ∈ (Result.component os target type class_).properties) : IsOwn p
  | package {package : Package} {type : Field} {key : Json} {p : Property}
    (h : p ∈ package.properties type key) : IsOwn p

theorem Property.IsOwn.isProper {p : Property} (h : p.IsOwn) : p.IsProper := by
  cases h with
  | artifact h => exact Artifact.isProper_of_mem_properties h
  | result h => exact Result.isProper_of_mem_properties h
  | package h => exact Package.isProper_of_mem_properties h

namespace Declaration

/-! ## §2. Written names. -/

/-- The name under which a document writes a property that was declared under
this one. -/
def writtenName (name : String) : String := toolScope ++ bareName name

/-- Is the second name the first one behind the scope, which this lacks? -/
def IsTwin (a b : String) : Prop := ¬ CarriesScope a ∧ b = toolScope ++ a

@[simp] theorem bareName_scope_append (rest : String) : bareName (toolScope ++ rest) = rest := by
  have h : toolScope.toList.isPrefixOf (toolScope ++ rest).toList :=
    carriesScope_iff.1 ⟨rest, rfl⟩
  rw [bareName, if_pos h, String.toList_append, List.drop_left, String.ofList_toList]

theorem bareName_of_not_carriesScope {name : String} (h : ¬ CarriesScope name) :
    bareName name = name := by
  rw [carriesScope_iff] at h
  rw [bareName, if_neg h]

theorem writtenName_inj {a b : String} : writtenName a = writtenName b ↔ bareName a = bareName b :=
  String.append_right_inj toolScope

/-- **Two names are written alike just if they are one, or twins.** -/
theorem writtenName_eq_iff {a b : String} :
    writtenName a = writtenName b ↔ a = b ∨ IsTwin a b ∨ IsTwin b a := by
  rw [writtenName_inj]
  constructor
  · intro h
    by_cases ha : CarriesScope a
    · obtain ⟨a', rfl⟩ := ha
      by_cases hb : CarriesScope b
      · obtain ⟨b', rfl⟩ := hb
        rw [bareName_scope_append, bareName_scope_append] at h
        exact .inl (congrArg _ h)
      · rw [bareName_scope_append, bareName_of_not_carriesScope hb] at h
        exact .inr (.inr ⟨hb, congrArg _ h⟩)
    · by_cases hb : CarriesScope b
      · obtain ⟨b', rfl⟩ := hb
        rw [bareName_scope_append, bareName_of_not_carriesScope ha] at h
        exact .inr (.inl ⟨ha, congrArg _ h.symm⟩)
      · rw [bareName_of_not_carriesScope ha, bareName_of_not_carriesScope hb] at h
        exact .inl h
  · rintro (rfl | ⟨ha, rfl⟩ | ⟨hb, rfl⟩)
    · rfl
    · rw [bareName_scope_append, bareName_of_not_carriesScope ha]
    · rw [bareName_scope_append, bareName_of_not_carriesScope hb]

/-- A name with the scope once at most is written with it once. -/
theorem carriesScopeOnce_writtenName {name : String}
    (h : ¬ CarriesScope name ∨ CarriesScopeOnce name) : CarriesScopeOnce (writtenName name) := by
  refine ⟨bareName name, rfl, ?_⟩
  rcases h with h | ⟨rest, rfl, h⟩
  · rwa [bareName_of_not_carriesScope h]
  · rwa [bareName_scope_append]

/-- **Among the tool's own properties, a name without the scope meets that of its
own name.** -/
theorem writtenName_eq_fullName_iff {name : String} (h : ¬ CarriesScope name) {own : Property}
    (hown : own.IsOwn) : writtenName name = own.fullName ↔ name = own.name := by
  rw [writtenName, bareName_of_not_carriesScope h, Property.fullName, hown.isProper.scope,
    String.append_right_inj]

/-! ## §3. The document. -/

section Document

variable {d : Declaration} {c : Component} {n : Nat} {g : Graph n} {root : Fin n}
  {timestamp : String} {doc : Json}

/-- Above all else, a document shows what was declared, in order and with its
values. -/
theorem exists_properties_of_document (h : d.component = .ok c) (hroot : g.component root = c)
    (hdoc : g.document root timestamp = .ok doc) :
    ∃ top, doc.get? "component" = some top ∧ (Shown.ofJson top).properties
      = d.properties.map fun (name, value) => (.ofText (writtenName name), value) := by
  obtain ⟨top, htop, hshown⟩ := Graph.exists_shown_of_document hdoc
  refine ⟨top, htop, ?_⟩
  rw [hshown, hroot, Component.shown, Component.shownWith, properties_of_component h, List.map_map]
  rfl

end Document

/-- **A document writes what was declared under names with the tool's scope.**
Each property is written, in order and with its value; under a name with the
scope once, if it carried the scope once at most; two of them alike just if
their names are twins; and one without the scope under a name of the tool's own
just if it was declared under that. -/
theorem document_declares (d : Declaration) {c : Component} (h : d.component = .ok c) {n : Nat}
    (g : Graph n) (root : Fin n) (timestamp : String) (hroot : g.component root = c)
    (hpurl : ∀ i, g.Reaches [root] i → ∀ p, (g.component i).purl = some p → ∃ s, p.text? = .ok s) :
    (∃ doc top, g.document root timestamp = .ok doc ∧ doc.get? "component" = some top
      ∧ (Shown.ofJson top).properties
        = d.properties.map fun (name, value) => (.ofText (writtenName name), value))
    ∧ (∀ name, CarriesScope (writtenName name))
    ∧ (∀ name, ¬ CarriesScope name ∨ CarriesScopeOnce name → CarriesScopeOnce (writtenName name))
    ∧ (∀ a b, writtenName a = writtenName b ↔ a = b ∨ IsTwin a b ∨ IsTwin b a)
    ∧ ∀ name, ¬ CarriesScope name → ∀ own : Property, own.IsOwn →
      (writtenName name = own.fullName ↔ name = own.name) := by
  refine ⟨?_, fun name => ⟨bareName name, rfl⟩, fun _ => carriesScopeOnce_writtenName,
    fun _ _ => writtenName_eq_iff, fun _ hname _ hown => writtenName_eq_fullName_iff hname hown⟩
  obtain ⟨doc, hdoc⟩ := Graph.exists_document_iff.2 fun i hi =>
    Component.isWritable_iff.2 (hpurl i hi)
  obtain ⟨top, htop, hproperties⟩ := exists_properties_of_document h hroot hdoc
  exact ⟨doc, top, hdoc, htop, hproperties⟩

/-- A component with a property that is named like one of the tool's own, two
that are twins, and one with the scope twice. -/
def lookalike : Declaration where
  name := .ofText "app"
  group := none
  version := none
  type := none
  purl := none
  properties := [("SchemaVersion", .ofText "99"), ("note", .ofText "a"),
    ("bomgraph:note", .ofText "b"), ("bomgraph:bomgraph:x", .ofText "c")]

/-- The component that `lookalike` declares, alone. -/
def lookalikeGraph : Graph 1 where
  nodes := #v[
    ⟨{ name := .ofText "app"
       properties := lookalike.properties.map fun (name, value) => property name value }, []⟩]

theorem component_lookalike : lookalike.component = .ok (lookalikeGraph.component 0) := rfl

theorem purl_lookalikeGraph (i : Fin 1) : (lookalikeGraph.component i).purl = none := by
  rw [Fin.fin_one_eq_zero i]
  rfl

/-- All four properties are written; the twins meet, and the property of the tool
is met under its own name. -/
theorem lookalike_declares :
    (∃ doc top, lookalikeGraph.document 0 "2024-01-01T00:00:00.000Z" = .ok doc
      ∧ doc.get? "component" = some top ∧ (Shown.ofJson top).properties
        = [(.ofText "bomgraph:SchemaVersion", .ofText "99"), (.ofText "bomgraph:note", .ofText "a"),
          (.ofText "bomgraph:note", .ofText "b"), (.ofText "bomgraph:bomgraph:x", .ofText "c")])
    ∧ CarriesScopeOnce (writtenName "note") ∧ CarriesScopeOnce (writtenName "bomgraph:note")
    ∧ IsTwin "note" "bomgraph:note" ∧ writtenName "note" = writtenName "bomgraph:note"
    ∧ writtenName "note" ≠ writtenName "SchemaVersion"
    ∧ (Property.ofField "SchemaVersion" (.ofText "2")).IsOwn
    ∧ writtenName "SchemaVersion" = (Property.ofField "SchemaVersion" (.ofText "2")).fullName := by
  obtain ⟨hdocument, -, honce, halike, hown⟩ := lookalike.document_declares component_lookalike
    lookalikeGraph 0 "2024-01-01T00:00:00.000Z" rfl fun i _ p hp => by
      rw [purl_lookalikeGraph] at hp
      contradiction
  have htwin : IsTwin "note" "bomgraph:note" := ⟨by decide, rfl⟩
  have hofTool : (Property.ofField "SchemaVersion" (.ofText "2")).IsOwn :=
    .artifact (a := ⟨none, .filesystem, .ofText "2", {}, none⟩) (by decide)
  refine ⟨hdocument, honce "note" (.inl (by decide)),
    honce "bomgraph:note" (.inr ⟨"note", rfl, by decide⟩), htwin, (halike _ _).2 (.inr (.inl htwin)),
    fun h => ?_, hofTool, (hown _ (by decide) _ hofTool).2 rfl⟩
  rcases (halike _ _).1 h with h | ⟨-, h⟩ | ⟨-, h⟩ <;> revert h <;> decide

/-- **Declared names do meet.**  Four names that differ are not written under four
names; one of them is written with the scope twice, and one under a name of the
tool's own, though it lacks the scope. -/
theorem lookalike_names_meet :
    ∃ doc top, lookalikeGraph.document 0 "2024-01-01T00:00:00.000Z" = .ok doc
      ∧ lookalike.component = .ok (lookalikeGraph.component 0)
      ∧ doc.get? "component" = some top
      ∧ (lookalike.properties.map (·.1)).Nodup
      ∧ ¬ ((Shown.ofJson top).properties.map (·.1)).Nodup
      ∧ (¬ ∀ p ∈ (Shown.ofJson top).properties,
        ∃ name, p.1 = Field.ofText name ∧ CarriesScopeOnce name)
      ∧ ∃ own : Property, own.IsOwn ∧ ¬ CarriesScope "SchemaVersion"
        ∧ (Shown.ofJson top).properties[0]? = some (.ofText own.fullName, .ofText "99")
        ∧ lookalike.properties[0]? = some ("SchemaVersion", .ofText "99") := by
  have hwritable : ∀ i, lookalikeGraph.Reaches [0] i → (lookalikeGraph.component i).isWritable := by
    intro i _
    rw [Component.isWritable, purl_lookalikeGraph]
    rfl
  obtain ⟨doc, hdoc⟩ := Graph.exists_document_iff.2 hwritable
  obtain ⟨top, htop, hproperties⟩ := exists_properties_of_document component_lookalike rfl hdoc
  refine ⟨doc, top, hdoc, component_lookalike, htop, by decide, ?_, fun h => ?_,
    Property.ofField "SchemaVersion" (.ofText "2"),
    .artifact (a := ⟨none, .filesystem, .ofText "2", {}, none⟩) (by decide), by decide, ?_, rfl⟩
  · rw [hproperties]
    decide
  · rw [hproperties] at h
    obtain ⟨name, hname, rest, rfl, hrest⟩ :=
      h (.ofText "bomgraph:bomgraph:x", .ofText "c") (by decide)
    have hx : "bomgraph:" ++ "bomgraph:x" = toolScope ++ rest :=
      Json.text.inj (Option.some.inj hname)
    rw [toolScope, String.append_right_inj] at hx
    exact hrest (hx ▸ by decide)
  · rw [hproperties]
    rfl

end Declaration

end ComponentGraph
