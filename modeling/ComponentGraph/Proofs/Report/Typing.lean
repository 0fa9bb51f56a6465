/-
  ComponentGraph.Proofs.Report.Typing
  ────────────────────────────────
  **REPORTS AS THE SCANNER WRITES THEM.**

  The types of a report's members, as far as this tool knows them
  (`Report.isTyped`).  Everything that is read from a report of these types
  has the shape that its use needs:

      not_breaks_of_isTyped — no result breaks off
      artifact_of_isTyped   — the artifact is read, and what decides on its
                              root is what the document says
      ofJson_of_isTyped     — so are all results
-/
import ComponentGraph.Proofs.Json.Schema
import ComponentGraph.Proofs.Report.Check

namespace ComponentGraph

open Json (fits isText isNumber isTruth isListOf isOneOf)

/-! ## §1. The types. -/

def Layer.isTyped : Json → Bool := fits [] [("Digest", isText), ("DiffID", isText)]

def Identifier.isTyped : Json → Bool :=
  fits [] [("PURL", isText), ("BOMRef", isText), ("UID", isText)]

def Package.isTyped : Json → Bool :=
  fits [("Name", isText), ("Version", isText)]
    [("ID", isText), ("Identifier", Identifier.isTyped), ("Release", isText), ("Epoch", isNumber),
      ("Arch", isText), ("SrcName", isText), ("SrcVersion", isText), ("SrcRelease", isText),
      ("SrcEpoch", isNumber), ("Modularitylabel", isText), ("Licenses", isListOf isText),
      ("Maintainer", isText), ("Indirect", isTruth), ("DependsOn", isListOf isText),
      ("Layer", Layer.isTyped), ("FilePath", isText), ("Digest", isText)]

/-- Of a vulnerability only what it is matched by has types; the rest is
carried through. -/
def Vulnerability.isTyped : Json → Bool :=
  fits [("VulnerabilityID", isText), ("PkgName", isText), ("InstalledVersion", isText)]
    [("PkgID", isText), ("FixedVersion", isText), ("Severity", isText), ("Title", isText)]

def Result.classes : List String :=
  ["os-pkgs", "lang-pkgs", "config", "secret", "license", "license-file", "custom"]

def Result.isTyped : Json → Bool :=
  fits [("Target", isText)]
    [("Class", isOneOf Result.classes), ("Type", isText),
      ("Packages", isListOf Package.isTyped), ("Vulnerabilities", isListOf Vulnerability.isTyped)]

def OS.isTyped : Json → Bool := fits [("Family", isText), ("Name", isText)] [("Eosl", isTruth)]

def ImageConfig.isTyped : Json → Bool := fits [] [("architecture", isText), ("os", isText)]

def Metadata.isTyped : Json → Bool :=
  fits [] [("Size", isNumber), ("OS", OS.isTyped), ("ImageID", isText),
    ("DiffIDs", isListOf isText), ("RepoTags", isListOf isText), ("RepoDigests", isListOf isText),
    ("ImageConfig", ImageConfig.isTyped)]

namespace Declaration

def isTypedProperty : Json → Bool := fits [("Name", isText), ("Value", isText)] []

def isTyped : Json → Bool :=
  fits [("Name", isText)] [("Group", isText), ("Version", isText), ("Type", isText),
    ("PackageURL", isText), ("Properties", isListOf isTypedProperty)]

def isTypedMetadata : Json → Bool := fits [("Component", isTyped)] []

def isTypedDocument : Json → Bool := fits [("Metadata", isTypedMetadata)] []

end Declaration

def Artifact.types : List String :=
  ["container_image", "filesystem", "repository", "cyclonedx", "spdx", "vm", "aws_account"]

def Report.isTyped : Json → Bool :=
  fits [("SchemaVersion", isNumber), ("ArtifactName", Json.isText),
      ("ArtifactType", isOneOf Artifact.types), ("Metadata", Metadata.isTyped)]
    [("CreatedAt", Json.isText), ("Results", isListOf Result.isTyped),
      ("CycloneDX", Declaration.isTypedDocument)]

/-! ## §2. Fields of a type. -/

namespace Field

variable {f : Field} {kind : Json → Bool}

theorem all_of_any (h : f.any kind) : f.all kind := by
  cases f with
  | none => rfl
  | some j => exact h

theorem exists_of_any (h : f.any kind) : ∃ j, f = some j ∧ kind j := by
  cases f with
  | none => contradiction
  | some j => exact ⟨j, rfl, h⟩

theorem isSpellable_of_isText (h : f.all isText) : f.isSpellable := by
  cases f with
  | none => rfl
  | some j =>
    obtain ⟨s, rfl⟩ := Json.isText_iff.1 h
    rfl

theorem isSpellable_of_isNumber (h : f.all isNumber) : f.isSpellable := by
  cases f with
  | none => rfl
  | some j =>
    obtain ⟨n, rfl⟩ := Json.isNumber_iff.1 h
    rfl

theorem areSpellable_of_isText {items : List Json} (h : ∀ v ∈ items, v.isText) :
    Json.areSpellable items := by
  induction items with
  | nil => rfl
  | cons v items ih =>
    rw [List.forall_mem_cons] at h
    obtain ⟨s, rfl⟩ := Json.isText_iff.1 h.1
    simp [Json.areSpellable, Json.isSpellable, ih h.2]

/-- A list of texts can be written as one text. -/
theorem exists_joinable_of_isListOf (h : f.all (isListOf isText)) :
    ∃ items, f.joinable = .ok items := by
  cases f with
  | none => exact ⟨[], rfl⟩
  | some j =>
    obtain ⟨items, rfl, hall⟩ := Json.isListOf_iff.1 h
    exact ⟨items, if_pos (areSpellable_of_isText hall)⟩

theorem isListable_of_isListOf (h : f.all (isListOf kind)) : f.isListable := by
  cases f with
  | none => rfl
  | some j =>
    obtain ⟨items, rfl, -⟩ := Json.isListOf_iff.1 h
    rfl

theorem isArrayOrAbsent_of_isListOf (h : f.all (isListOf kind)) : Report.isArrayOrAbsent f := by
  cases f with
  | none => rfl
  | some j =>
    obtain ⟨items, rfl, -⟩ := Json.isListOf_iff.1 h
    rfl

theorem mem_arrayItems_of_isListOf (h : f.all (isListOf kind)) {j : Json}
    (hj : j ∈ Report.arrayItems f) : kind j := by
  cases f with
  | none => simp [Report.arrayItems] at hj
  | some v =>
    obtain ⟨items, rfl, hall⟩ := Json.isListOf_iff.1 h
    exact hall j hj

end Field

/-! ## §3. Results. -/

theorem Package.isKeyed_of_isTyped {j : Json} (h : isTyped j) : isKeyed j := by
  have hname : (j.get? "Name").any isText := Json.fits_must h (by simp)
  have hversion : (j.get? "Version").any isText := Json.fits_must h (by simp)
  have hrelease : (j.get? "Release").all isText := Json.fits_may h (by simp)
  have hepoch : (j.get? "Epoch").all isNumber := Json.fits_may h (by simp)
  simp [isKeyed, Field.isSpellable_of_isText (Field.all_of_any hname),
    Field.isSpellable_of_isText (Field.all_of_any hversion), Field.isSpellable_of_isText hrelease,
    Field.isSpellable_of_isNumber hepoch]

theorem Vulnerability.isKeyed_of_isTyped {j : Json} (h : isTyped j) : isKeyed j := by
  have hname : (j.get? "PkgName").any isText := Json.fits_must h (by simp)
  have hversion : (j.get? "InstalledVersion").any isText := Json.fits_must h (by simp)
  have hnull : j ≠ .null := by
    rintro rfl
    contradiction
  simp [isKeyed, hnull, Field.isSpellable_of_isText (Field.all_of_any hname),
    Field.isSpellable_of_isText (Field.all_of_any hversion)]

namespace Result

variable {j : Json}

theorem passed_of_isTyped (h : isTyped j) : Report.PassedResult j := by
  have hpackages : (j.get? "Packages").all (isListOf Package.isTyped) := Json.fits_may h (by simp)
  refine ⟨Json.isObject_of_fits h, Field.isArrayOrAbsent_of_isListOf hpackages, fun p hp => ?_⟩
  have htyped := Field.mem_arrayItems_of_isListOf hpackages hp
  have hdeps : (p.get? "DependsOn").all (isListOf isText) := Json.fits_may htyped (by simp)
  exact ⟨Json.isObject_of_fits htyped, Field.isArrayOrAbsent_of_isListOf hdeps⟩

/-- **A result of these types does not break off**: its type can be spelled,
its packages and vulnerabilities are lists, and each has a key. -/
theorem not_breaks_of_isTyped (h : isTyped j) : ¬ Breaks j := by
  have htype : (j.get? "Type").all isText := Json.fits_may h (by simp)
  have hpackages : (j.get? "Packages").all (isListOf Package.isTyped) := Json.fits_may h (by simp)
  have hvulns : (j.get? "Vulnerabilities").all (isListOf Vulnerability.isTyped) :=
    Json.fits_may h (by simp)
  intro hb
  cases hb with
  | type _ hs => simp [Field.isSpellable_of_isText htype] at hs
  | package _ hp hk =>
    simp [Package.isKeyed_of_isTyped (Field.mem_arrayItems_of_isListOf hpackages hp)] at hk
  | noList _ hl => simp [Field.isListable_of_isListOf hvulns] at hl
  | vulnerability _ hv hk =>
    simp [Vulnerability.isKeyed_of_isTyped (Field.mem_arrayItems_of_isListOf hvulns hv)] at hk

end Result

/-! ## §4. The artifact. -/

namespace Metadata

/-- Nothing but a text is first in a list of texts. -/
theorem oddDigest_of_isListOf {m : Metadata} {f : Field} (h : f.all (isListOf isText))
    (hm : m.repoDigest = f.first) : m.oddDigest = false := by
  unfold oddDigest
  rw [hm]
  cases f with
  | none => rfl
  | some j =>
    obtain ⟨items, rfl, hall⟩ := Json.isListOf_iff.1 h
    cases items with
    | nil => rfl
    | cons v items =>
      obtain ⟨s, rfl⟩ := Json.isText_iff.1 (hall v List.mem_cons_self)
      rfl

/-- Read metadata have the first digest of the document. -/
def ReadsDigest (j : Json) (m : Metadata) : Prop := m.repoDigest = (j.get? "RepoDigests").first

variable {j : Json} (h : isTyped j)

include h

/-- Size and lists of these types are read. -/
theorem ofJson_of_isTyped : ∃ m, ofJson j = .ok m ∧ ReadsDigest j m := by
  have hsize : (j.get? "Size").all isNumber := Json.fits_may h (by simp)
  obtain ⟨repoDigests, hr⟩ := Field.exists_joinable_of_isListOf (f := j.get? "RepoDigests")
    (Json.fits_may h (by simp))
  obtain ⟨diffIds, hd⟩ := Field.exists_joinable_of_isListOf (f := j.get? "DiffIDs")
    (Json.fits_may h (by simp))
  obtain ⟨repoTags, ht⟩ := Field.exists_joinable_of_isListOf (f := j.get? "RepoTags")
    (Json.fits_may h (by simp))
  have hs : (single j).size.spelled = .ok (j.get? "Size") :=
    if_pos (Field.isSpellable_of_isNumber hsize)
  simp only [ofJson, hs, hr, hd, ht]
  exact ⟨_, rfl, rfl⟩

/-- What an image is named by is a text. -/
theorem ofNamed_of_isTyped : ofNamed j = .ok (single j) := by
  have hdigests : (j.get? "RepoDigests").all (isListOf isText) := Json.fits_may h (by simp)
  have hodd : (single j).oddDigest = false := oddDigest_of_isListOf hdigests rfl
  rw [ofNamed, hodd]
  rfl

/-- An image of these types is read, whether its package URL can be made or not. -/
theorem ofImage_of_isTyped : ∃ m, ofImage j = .ok m ∧ ReadsDigest j m := by
  have himage : (j.get? "ImageID").all isText := Json.fits_may h (by simp)
  unfold ofImage
  rw [Field.spelled, if_pos (Field.isSpellable_of_isText himage), ofNamed_of_isTyped h]
  cases hp : (single j).imagePurl with
  | ok purl =>
    simp only [bind, Except.bind, hp]
    exact ofJson_of_isTyped h
  | error e =>
    simp only [bind, Except.bind, hp]
    exact ⟨_, rfl, rfl⟩

/-- **Metadata of these types are read for an artifact of any kind.** -/
theorem ofKind_of_isTyped (kind : ArtifactKind) :
    ∃ m, ofKind kind (some j) = .ok m ∧ ReadsDigest j m := by
  have hneed := need_of_isObject (Json.isObject_of_fits h)
  cases kind with
  | cyclonedx =>
    refine ⟨single j, ?_, rfl⟩
    cases j with
    | object members => rfl
    | _ => contradiction
  | containerImage =>
    simp only [ofKind, hneed, bind, Except.bind]
    exact ofImage_of_isTyped h
  | _ =>
    simp only [ofKind, hneed, bind, Except.bind]
    exact ofJson_of_isTyped h

end Metadata

namespace Declaration

theorem isOk_propertyOfJson {j : Json} (h : isTypedProperty j) : (propertyOfJson j).isOk := by
  have hname : (j.get? "Name").any isText := Json.fits_must h (by simp)
  obtain ⟨v, hv, htext⟩ := Field.exists_of_any hname
  obtain ⟨s, rfl⟩ := Json.isText_iff.1 htext
  unfold propertyOfJson
  rw [need_of_isObject (Json.isObject_of_fits h), isOk_bind]
  refine ⟨j, rfl, ?_⟩
  rw [hv]
  rfl

theorem ofField_of_isTyped {j : Json} (h : isTyped j) :
    ∃ d, ofField (some j) = .ok d ∧ d.purl = j.get? "PackageURL" := by
  have hpurl : (j.get? "PackageURL").all isText := Json.fits_may h (by simp)
  have hprops : (j.get? "Properties").all (isListOf isTypedProperty) := Json.fits_may h (by simp)
  unfold ofField
  rw [need_of_isObject (Json.isObject_of_fits h)]
  simp only [bind, Except.bind, Field.spelled, Field.isSpellable_of_isText hpurl, if_true]
  cases hp : j.get? "Properties" with
  | none => exact ⟨_, rfl, rfl⟩
  | some v =>
    rw [hp] at hprops
    obtain ⟨items, rfl, hall⟩ := Json.isListOf_iff.1 hprops
    obtain ⟨properties, hread⟩ := isOk_iff.1
      ((isOk_mapM _ _).2 fun v hv => isOk_propertyOfJson (hall v hv))
    simp only [Field.value?, hread]
    exact ⟨_, rfl, rfl⟩

/-- Where a document declares the package URL of its component. -/
def purlOf (document : Json) : Field :=
  ((document.get? "Metadata").get? "Component").get? "PackageURL"

/-- A document holds metadata, and these a component. -/
theorem exists_component {j : Json} (h : isTypedDocument j) : ∃ metadata component,
    j.get? "Metadata" = some metadata ∧ metadata.isObject
      ∧ metadata.get? "Component" = some component ∧ isTyped component := by
  have hmeta : (j.get? "Metadata").any isTypedMetadata := Json.fits_must h (by simp)
  obtain ⟨metadata, hm, hmt⟩ := Field.exists_of_any hmeta
  have hcomp : (metadata.get? "Component").any isTyped := Json.fits_must hmt (by simp)
  obtain ⟨component, hc, hct⟩ := Field.exists_of_any hcomp
  exact ⟨metadata, component, hm, Json.isObject_of_fits hmt, hc, hct⟩

theorem isText_purlOf {j : Json} (h : isTypedDocument j) : (purlOf j).all isText := by
  obtain ⟨metadata, component, hm, -, hc, htyped⟩ := exists_component h
  have hpurl : (component.get? "PackageURL").all isText := Json.fits_may htyped (by simp)
  simpa [purlOf, Field.get?, hm, hc] using hpurl

/-- The declaration of a document is that of its component. -/
theorem ofDocument_of_isTyped {j : Json} (h : isTypedDocument j) :
    ∃ d, ofDocument (some j) = .ok (some d) ∧ d.purl = purlOf j := by
  obtain ⟨metadata, component, hm, ho, hc, htyped⟩ := exists_component h
  obtain ⟨d, hd, hpurl⟩ := ofField_of_isTyped htyped
  have hfilled : Field.isFilled (some j) := by
    cases j <;> first | rfl | contradiction
  refine ⟨d, ?_, ?_⟩
  · unfold ofDocument
    simp only [Field.get?, Option.bind_some, hfilled, if_true, hm, need_of_isObject ho, bind,
      Except.bind, hc, hd]
    rfl
  · rw [hpurl]
    simp [purlOf, Field.get?, hm, hc]

end Declaration

/-- An artifact as a document describes it, as far as its root depends on it. -/
structure Artifact.Describes (j : Json) (a : Artifact) : Prop where
  name : a.name = j.get? "ArtifactName"
  kind : a.kind = ArtifactKind.ofField (j.get? "ArtifactType")
  digest : a.kind ≠ .cyclonedx →
    a.metadata.repoDigest = ((j.get? "Metadata").get? "RepoDigests").first
  declaration : a.kind = .cyclonedx →
    a.declaration.map (·.purl) = (j.get? "CycloneDX").map Declaration.purlOf

/-- The declaration of a document, if there is one, is read. -/
theorem Declaration.ofDocument_field {f : Field} (h : f.all isTypedDocument) :
    ∃ declaration, ofDocument f = .ok declaration
      ∧ declaration.map (·.purl) = f.map purlOf := by
  cases f with
  | none => exact ⟨none, rfl, rfl⟩
  | some document =>
    obtain ⟨d, hread, hpurl⟩ := ofDocument_of_isTyped h
    exact ⟨some d, hread, congrArg some hpurl⟩

/-- **The artifact of a report of these types is read.** -/
theorem artifact_of_isTyped {j : Json} (h : Report.isTyped j) :
    ∃ a, Artifact.ofJson j = .ok a ∧ a.Describes j := by
  have hversion : (j.get? "SchemaVersion").any isNumber := Json.fits_must h (by simp)
  have hmeta : (j.get? "Metadata").any Metadata.isTyped := Json.fits_must h (by simp)
  have hspelled : (j.get? "SchemaVersion").isSpellable :=
    Field.isSpellable_of_isNumber (Field.all_of_any hversion)
  have hname : (j.get? "ArtifactName").any isText := Json.fits_must h (by simp)
  have hspelledName : (j.get? "ArtifactName").isSpellable :=
    Field.isSpellable_of_isText (Field.all_of_any hname)
  obtain ⟨metadata, hm, hmt⟩ := Field.exists_of_any hmeta
  obtain ⟨m, hread, hdigest⟩ :=
    Metadata.ofKind_of_isTyped hmt (ArtifactKind.ofField (j.get? "ArtifactType"))
  have hdigest : m.repoDigest = ((j.get? "Metadata").get? "RepoDigests").first := by
    rw [hdigest, hm]
    rfl
  unfold Artifact.ofJson
  rw [need_of_isObject (Json.isObject_of_fits h)]
  simp only [bind, Except.bind, Field.spelled, hspelled, if_true, hm, hread, hspelledName,
    Bool.not_true, Bool.false_eq_true, and_false, if_false]
  by_cases hk : ArtifactKind.ofField (j.get? "ArtifactType") = .cyclonedx
  · -- the document is looked at as well
    obtain ⟨declaration, hdocument, hpurl⟩ := Declaration.ofDocument_field (f := j.get? "CycloneDX")
      (Json.fits_may h (by simp))
    simp only [hk, if_true, hdocument]
    exact ⟨_, rfl, rfl, hk.symm, fun hne => absurd rfl hne, fun _ => hpurl⟩
  · simp only [hk, if_false]
    exact ⟨_, rfl, rfl, rfl, fun _ => hdigest, fun he => absurd he hk⟩

/-! ## §5. The results. -/

namespace Report

variable {j : Json}

theorem passed_of_isTyped (h : isTyped j) : Passed j := by
  have hmeta : (j.get? "Metadata").any Metadata.isTyped := Json.fits_must h (by simp)
  have hresults : (j.get? "Results").all (isListOf Result.isTyped) := Json.fits_may h (by simp)
  obtain ⟨metadata, hm, hmt⟩ := Field.exists_of_any hmeta
  refine ⟨Json.isObject_of_fits h, ?_, Field.isArrayOrAbsent_of_isListOf hresults, fun r hr => ?_⟩
  · rw [hm]
    exact Json.isObject_of_fits hmt
  · exact Result.passed_of_isTyped (Field.mem_arrayItems_of_isListOf hresults hr)

theorem withDefault_eq_self {name : String} {value m : Json} (hm : j.get? name = some m)
    (hne : m ≠ .null) : withDefault name value j = j := by
  unfold withDefault
  split
  · rename_i hv
    rw [hm] at hv
    cases m <;> contradiction
  · rfl

/-- Nothing is missing that loading would complete. -/
theorem withDefaults_of_isTyped (h : isTyped j) : withDefaults j = j := by
  have hversion : (j.get? "SchemaVersion").any isNumber := Json.fits_must h (by simp)
  have hmeta : (j.get? "Metadata").any Metadata.isTyped := Json.fits_must h (by simp)
  obtain ⟨version, hv, hvt⟩ := Field.exists_of_any hversion
  obtain ⟨metadata, hm, hmt⟩ := Field.exists_of_any hmeta
  have hversion : version ≠ .null := by
    rintro rfl
    contradiction
  have hmetadata : metadata ≠ .null := by
    rintro rfl
    contradiction
  unfold withDefaults
  rw [withDefault_eq_self hv hversion, withDefault_eq_self hm hmetadata]

/-- **All results of a report of these types are read.** -/
theorem ofJson_of_isTyped (h : isTyped j) (artifact : Artifact) :
    ∃ r, Report.ofJson artifact j = .ok r := by
  have hresults : (j.get? "Results").all (isListOf Result.isTyped) := Json.fits_may h (by simp)
  have hok := isOk_ofJson (passed_of_isTyped h) artifact
  rw [withDefaults_of_isTyped h] at hok
  apply isOk_iff.1
  rw [hok]
  rintro ⟨r, hr, hb⟩
  exact Result.not_breaks_of_isTyped (Field.mem_arrayItems_of_isListOf hresults hr) hb

end Report

end ComponentGraph
