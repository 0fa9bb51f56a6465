/-
  ComponentGraph.Proofs.Report.Failing
  ────────────────────────────────
  **ONLY THE ROOT CAN FAIL.**

  A report of the scanner's types has a graph unless its root fails, and there
  are three ways in which that happens (`Report.Rejected`).  Whatever is wrong
  with packages, with their dependencies or with vulnerabilities leaves the
  report a graph (`fails_at_root`).
-/
import ComponentGraph.Proofs.Purl.Image
import ComponentGraph.Proofs.Report.Assembly
import ComponentGraph.Proofs.Report.Typing
import ComponentGraph.Proofs.Steps

namespace ComponentGraph

/-! ## §1. How a root fails. -/

/-- What keeps a report of this document from having a root. -/
inductive Report.Rejected (j : Json) : RootError → Prop where
  /-- The first digest of an image is no reference. -/
  | image {digest : String} {more : List Json} {fault : Image.Fault} :
      j.get? "ArtifactType" = .ofText "container_image" →
      (j.get? "Metadata").get? "RepoDigests" = some (.array (.text digest :: more)) →
      digest ≠ "" → Image.Reference.parse digest = .error fault →
      Rejected j (.purl (.badImage digest fault))
  /-- A bill of materials comes without its document. -/
  | undeclared : j.get? "ArtifactType" = .ofText "cyclonedx" → j.get? "CycloneDX" = none →
      Rejected j (.undeclared (j.get? "ArtifactName"))
  /-- Its component has a package URL that cannot be read. -/
  | declared {document : Json} {text : String} {cause : PurlError} :
      j.get? "ArtifactType" = .ofText "cyclonedx" → j.get? "CycloneDX" = some document →
      Declaration.purlOf document = .ofText text → text ≠ "" → Purl.parse text = .error cause →
      Rejected j (.purl (.unreadable text cause))

namespace ArtifactKind

/-- The word for a kind; other kinds have none in common. -/
def word? : ArtifactKind → Option String
  | containerImage => some "container_image"
  | vm => some "vm"
  | filesystem => some "filesystem"
  | repository => some "repository"
  | cyclonedx => some "cyclonedx"
  | other => none

/-- A field is of a kind just if it holds the word for it. -/
theorem ofField_eq_iff (kind : ArtifactKind) {word : String} (h : kind.word? = some word)
    (f : Field) : ofField f = kind ↔ f = .ofText word := by
  have hword : ofField (.ofText word) = kind := by
    cases kind <;> first | contradiction | (obtain rfl := Option.some.inj h; rfl)
  constructor
  · rintro rfl
    unfold ofField at h
    split at h
    · -- whichever word the text is compared with, it is that word
      rename_i s
      repeat' split at h
      all_goals simp_all [word?, Field.ofText]
    · contradiction
  · rintro rfl
    exact hword

end ArtifactKind

namespace Declaration

/-- A declared component fails just where its package URL does. -/
theorem component_error_iff (d : Declaration) (e : PackageUrlError) :
    d.component = .error e ↔ d.purl.isFilled ∧ Purl.read d.purl = .error e := by
  unfold component
  by_cases hf : d.purl.isFilled
  · cases Purl.read d.purl <;> simp [hf, bind, Except.bind, pure, Except.pure]
  · simp [hf, bind, Except.bind, pure, Except.pure]

/-- What fails of a declaration is the reading of a text that is not empty. -/
theorem component_error_iff_of_isText {d : Declaration} {f : Field} (h : f.all Json.isText)
    (hd : d.purl = f) (e : PackageUrlError) : d.component = .error e
      ↔ ∃ text cause, f = .ofText text ∧ text ≠ "" ∧ Purl.parse text = .error cause
        ∧ e = .unreadable text cause := by
  rw [component_error_iff, hd]
  cases f with
  | none => simp [Field.isFilled, Field.ofText]
  | some v =>
    obtain ⟨s, rfl⟩ := Json.isText_iff.1 h
    simp only [Purl.read, mapError_eq_error_iff, Field.isFilled, Json.isFilled, Field.ofText]
    constructor
    · rintro ⟨hne, cause, hp, rfl⟩
      exact ⟨s, cause, rfl, by simpa using hne, hp, rfl⟩
    · rintro ⟨text, cause, hs, hne, hp, rfl⟩
      obtain rfl : s = text := by simpa using hs
      exact ⟨by simpa using hne, cause, hp, rfl⟩

end Declaration

/-- The first digest of an artifact, where it is not empty. -/
theorem Metadata.firstDigest_eq_some_iff {m : Metadata} {f : Field} {digest : String}
    (h : f.all (Json.isListOf Json.isText)) (hm : m.repoDigest = f.first) :
    m.firstDigest = some digest
      ↔ digest ≠ "" ∧ ∃ more, f = some (.array (.text digest :: more)) := by
  unfold firstDigest
  rw [hm]
  cases f with
  | none => simp [Field.first]
  | some v =>
    obtain ⟨items, rfl, hall⟩ := Json.isListOf_iff.1 h
    cases items with
    | nil => simp [Field.first]
    | cons item more =>
      obtain ⟨s, rfl⟩ := Json.isText_iff.1 (hall item List.mem_cons_self)
      simp only [Field.first, List.head?_cons]
      by_cases hs : s = ""
      · simp [hs, eq_comm]
      · rw [if_neg hs]
        constructor
        · intro he
          obtain rfl := Option.some.inj he
          exact ⟨hs, more, rfl⟩
        · rintro ⟨-, _, he⟩
          simp_all

namespace Artifact

variable {a : Artifact} {e : RootError}

theorem root_error_iff_of_image (h : a.kind = .containerImage) :
    a.root = .error e ↔ ∃ p, a.metadata.imagePurl = .error p ∧ e = .purl p := by
  rw [← mapError_eq_error_iff]
  unfold root
  rw [h]
  cases a.metadata.imagePurl.mapError RootError.purl <;> simp [bind, Except.bind, pure, Except.pure]

theorem root_error_iff_of_cyclonedx (h : a.kind = .cyclonedx) :
    a.root = .error e ↔ a.declaration = none ∧ e = .undeclared a.name
      ∨ ∃ d p, a.declaration = some d ∧ d.component = .error p ∧ e = .purl p := by
  unfold root
  rw [h]
  cases a.declaration with
  | none => simp [eq_comm]
  | some d => simp [mapError_eq_error_iff]

/-- Artifacts of the other kinds always have a root. -/
theorem root_ok_of_ne (himage : a.kind ≠ .containerImage) (hdoc : a.kind ≠ .cyclonedx) :
    ∃ root, a.root = .ok root := by
  unfold root
  cases hk : a.kind <;> simp_all [bind, Except.bind, pure, Except.pure]

end Artifact

namespace Report

variable {j : Json}

theorem isTyped_digests (h : isTyped j) :
    ((j.get? "Metadata").get? "RepoDigests").all (Json.isListOf Json.isText) := by
  have hmeta : (j.get? "Metadata").any Metadata.isTyped := Json.fits_must h (by simp)
  obtain ⟨metadata, hm, hmt⟩ := Field.exists_of_any hmeta
  rw [hm]
  exact Json.fits_may hmt (by simp)

section Described

variable {a : Artifact} (h : isTyped j) (ha : a.Describes j)

include h ha

/-- The root of an image fails where its first digest is no reference. -/
theorem image_error_iff (hi : a.kind = .containerImage) (e : RootError) :
    a.root = .error e ↔ ∃ digest more fault,
      (j.get? "Metadata").get? "RepoDigests" = some (.array (.text digest :: more))
        ∧ digest ≠ "" ∧ Image.Reference.parse digest = .error fault
        ∧ e = .purl (.badImage digest fault) := by
  have hfirst : ∀ digest, a.metadata.firstDigest = some digest ↔ digest ≠ "" ∧ ∃ more,
      (j.get? "Metadata").get? "RepoDigests" = some (.array (.text digest :: more)) :=
    fun _ => Metadata.firstDigest_eq_some_iff (isTyped_digests h) (ha.digest (by simp [hi]))
  rw [Artifact.root_error_iff_of_image hi]
  simp only [Metadata.imagePurl_error_iff, hfirst]
  constructor
  · rintro ⟨p, ⟨digest, fault, ⟨hne, more, hmore⟩, hf, rfl⟩, rfl⟩
    exact ⟨digest, more, fault, hmore, hne, hf, rfl⟩
  · rintro ⟨digest, more, fault, hmore, hne, hf, rfl⟩
    exact ⟨_, ⟨digest, fault, ⟨hne, more, hmore⟩, hf, rfl⟩, rfl⟩

/-- The root of a bill of materials fails without a document, or where the
package URL in it cannot be read. -/
theorem document_error_iff (hc : a.kind = .cyclonedx) (e : RootError) :
    a.root = .error e ↔ j.get? "CycloneDX" = none ∧ e = .undeclared (j.get? "ArtifactName")
      ∨ ∃ document text cause, j.get? "CycloneDX" = some document
        ∧ Declaration.purlOf document = .ofText text ∧ text ≠ ""
        ∧ Purl.parse text = .error cause ∧ e = .purl (.unreadable text cause) := by
  have hdocument : (j.get? "CycloneDX").all Declaration.isTypedDocument :=
    Json.fits_may h (by simp)
  have hmap := ha.declaration hc
  rw [Artifact.root_error_iff_of_cyclonedx hc, ha.name]
  cases hd : j.get? "CycloneDX" with
  | none =>
    rw [hd, Option.map_none, Option.map_eq_none_iff] at hmap
    simp [hmap]
  | some document =>
    rw [hd] at hdocument
    rw [hd, Option.map_some, Option.map_eq_some_iff] at hmap
    obtain ⟨d, hdecl, hpurl⟩ := hmap
    have hcomp := Declaration.component_error_iff_of_isText (Declaration.isText_purlOf hdocument)
      hpurl
    rw [hdecl]
    constructor
    · rintro (⟨hnone, -⟩ | ⟨d', p, hd', hp, rfl⟩)
      · contradiction
      · obtain rfl := Option.some.inj hd'
        obtain ⟨text, cause, htext, hne, hparse, rfl⟩ := (hcomp p).1 hp
        exact .inr ⟨document, text, cause, rfl, htext, hne, hparse, rfl⟩
    · rintro (⟨hnone, -⟩ | ⟨document', text, cause, hd', htext, hne, hparse, rfl⟩)
      · contradiction
      · obtain rfl := Option.some.inj hd'
        exact .inr ⟨d, _, rfl, (hcomp _).2 ⟨text, cause, htext, hne, hparse, rfl⟩, rfl⟩

/-- **The root of a report of these types fails just in these three ways.** -/
theorem root_error_iff_rejected (e : RootError) : a.root = .error e ↔ Rejected j e := by
  have himage := ArtifactKind.ofField_eq_iff .containerImage rfl (j.get? "ArtifactType")
  have hbom := ArtifactKind.ofField_eq_iff .cyclonedx rfl (j.get? "ArtifactType")
  rw [← ha.kind] at himage hbom
  constructor
  · intro he
    by_cases hi : a.kind = .containerImage
    · obtain ⟨digest, more, fault, hd, hne, hf, rfl⟩ := (image_error_iff h ha hi e).1 he
      exact .image (himage.1 hi) hd hne hf
    · by_cases hc : a.kind = .cyclonedx
      · rcases (document_error_iff h ha hc e).1 he with
          ⟨hd, rfl⟩ | ⟨document, text, cause, hd, htext, hne, hp, rfl⟩
        · exact .undeclared (hbom.1 hc) hd
        · exact .declared (hbom.1 hc) hd htext hne hp
      · obtain ⟨root, hroot⟩ := Artifact.root_ok_of_ne hi hc
        rw [hroot] at he
        contradiction
  · intro hr
    cases hr with
    | image ht hd hne hf =>
      exact (image_error_iff h ha (himage.2 ht) _).2 ⟨_, _, _, hd, hne, hf, rfl⟩
    | undeclared ht hd =>
      exact (document_error_iff h ha (hbom.2 ht) _).2 (.inl ⟨hd, rfl⟩)
    | declared ht hd htext hne hp =>
      exact (document_error_iff h ha (hbom.2 ht) _).2
        (.inr ⟨_, _, _, hd, htext, hne, hp, rfl⟩)

end Described

/-! ## §2. How a whole report fails. -/

/-- Without a root no result is looked at. -/
theorem skippedJson_of_root_error {a : Artifact} {e : RootError} (ha : Artifact.ofJson j = .ok a)
    (he : a.root = .error e) : skippedJson j = [] := by
  unfold skippedJson
  rw [ha]
  simp only [he]

theorem assembleJson_of_root_error {a : Artifact} {e : RootError} (ha : Artifact.ofJson j = .ok a)
    (he : a.root = .error e) : assembleJson j = .error (.root e) := by
  unfold assembleJson
  rw [ha]
  simp [he, bind, Except.bind]

/-- **An image is named first.**  Where its package URL fails, that is how the
report fails, whatever its size and its lists hold. -/
theorem assembleJson_of_image_error {metadata : Json} {e : PackageUrlError}
    (hkind : j.get? "ArtifactType" = .ofText "container_image")
    (hversion : (j.get? "SchemaVersion").isSpellable)
    (hmetadata : (j.get? "Metadata").need = .ok metadata)
    (hid : (metadata.get? "ImageID").isSpellable)
    (htext : (Metadata.single metadata).oddDigest = false)
    (he : (Metadata.single metadata).imagePurl = .error e) :
    assembleJson j = .error (.root (.purl e)) := by
  have hneed : Field.need (some j) = .ok j := by
    cases j with
    | null => contradiction
    | _ => rfl
  have hnamed : Metadata.ofNamed metadata = .ok (Metadata.single metadata) := by
    rw [Metadata.ofNamed, htext]
    rfl
  have himage : Metadata.ofImage metadata = .ok (Metadata.single metadata) := by
    simp [Metadata.ofImage, Field.spelled, hid, hnamed, he, bind, Except.bind, pure, Except.pure]
  have hofField : ArtifactKind.ofField (.ofText "container_image") = .containerImage := rfl
  obtain ⟨a, ha, hk, hm⟩ : ∃ a, Artifact.ofJson j = .ok a ∧ a.kind = .containerImage
      ∧ a.metadata = Metadata.single metadata := by
    simp [Artifact.ofJson, Metadata.ofKind, Field.spelled, hneed, hkind, hofField, hversion,
      hmetadata, himage, bind, Except.bind, pure, Except.pure]
  apply assembleJson_of_root_error ha
  exact (Artifact.root_error_iff_of_image hk).2 ⟨e, by rw [hm, he], rfl⟩

/-- The size of this image cannot be spelled, but its digest is malformed. -/
example : assembleJson (.object [
    ("ArtifactType", .text "container_image"),
    ("Metadata", .object [
      ("RepoDigests", .array [.text "x"]),
      ("Size", .object [("toString", .null)])])])
    = .error (.root (.purl (.badImage "x" .missingDigest))) :=
  assembleJson_of_image_error rfl rfl rfl rfl rfl (by decide +kernel)

/-- With a root and results that are read there is a graph. -/
theorem assembleJson_of_root {a : Artifact} {root : Component} {r : Report}
    (ha : Artifact.ofJson j = .ok a) (hroot : a.root = .ok root) (hr : Report.ofJson a j = .ok r) :
    ∃ assembly, r.assemble = .ok assembly ∧ assembleJson j = .ok (r, assembly) := by
  have hartifact : r.artifact.root = .ok root := by rw [ofJson_eq_ok hr, hroot]
  have hassemble := assemble_of_root hartifact
  refine ⟨_, hassemble, ?_⟩
  unfold assembleJson
  rw [ha]
  simp [hroot, hr, hassemble, bind, Except.bind, pure, Except.pure]

/-- What a graph is made of. -/
theorem assembleJson_eq_ok {r : Report} {assembly : Assembly}
    (h : assembleJson j = .ok (r, assembly)) : ∃ a root, Artifact.ofJson j = .ok a
      ∧ a.root = .ok root ∧ Report.ofJson a j = .ok r ∧ r.assemble = .ok assembly := by
  unfold assembleJson at h
  obtain ⟨a, ha, h⟩ := bind_eq_ok_iff.1 h
  obtain ⟨root, hroot, h⟩ := bind_eq_ok_iff.1 h
  obtain ⟨report, hr, h⟩ := bind_eq_ok_iff.1 h
  obtain ⟨graph, hg, h⟩ := bind_eq_ok_iff.1 h
  rw [mapError_eq_ok_iff] at ha hroot hr hg
  obtain ⟨rfl, rfl⟩ := Prod.mk.inj (Except.ok.inj h)
  exact ⟨a, root, ha, hroot, hr, hg⟩

theorem readable_of_mapM {metadata : Field} {items : List Json} {results : List Result}
    (h : items.mapM (Result.ofReport metadata) = .ok results) :
    Result.readable metadata items = results := by
  induction items generalizing results with
  | nil =>
    obtain rfl := Except.ok.inj h
    rfl
  | cons item items ih =>
    rw [List.mapM_cons] at h
    obtain ⟨r, hr, h⟩ := bind_eq_ok_iff.1 h
    obtain ⟨rs, hrs, h⟩ := bind_eq_ok_iff.1 h
    obtain rfl := Except.ok.inj h
    unfold Result.readable
    rw [hr, ih hrs]

/-- Where there is a graph, all packages that were left out have been told. -/
theorem skippedJson_eq_skipped {r : Report} {assembly : Assembly}
    (h : assembleJson j = .ok (r, assembly)) : skippedJson j = assembly.skipped := by
  obtain ⟨a, root, ha, hroot, hr, hassemble⟩ := assembleJson_eq_ok h
  have hskipped : assembly.skipped = r.results.flatMap Result.contributionSkipped := by
    rw [assemble_of_root (by rw [ofJson_eq_ok hr, hroot])] at hassemble
    rw [← Except.ok.inj hassemble]
  unfold Report.ofJson at hr
  obtain ⟨items, hitems, hr⟩ := bind_eq_ok_iff.1 hr
  obtain ⟨results, hresults, hr⟩ := bind_eq_ok_iff.1 hr
  obtain rfl := Except.ok.inj hr
  unfold skippedJson
  rw [hskipped, ha]
  simp only [hroot, hitems, readable_of_mapM hresults]

/-- How building the graph of a document can end. -/
structure FailsAtRoot (j : Json) : Prop where
  /-- There is an artifact, and its root fails in one of the three ways. -/
  root : ∃ a, Artifact.ofJson j = .ok a ∧ ∀ cause, a.root = .error cause ↔ Rejected j cause
  /-- Whatever fails is the root, and the failure has that as its cause. -/
  error_iff : ∀ e, assembleJson j = .error e ↔ ∃ cause, e = .root cause ∧ Rejected j cause
  message : ∀ e, assembleJson j = .error e → e.message = some "failed to marshal report"
  /-- Until then no package was left out. -/
  skipped : ∀ e, assembleJson j = .error e → skippedJson j = []
  /-- In all other cases there is a graph. -/
  ok_iff : (∃ r assembly, assembleJson j = .ok (r, assembly)) ↔ ∀ cause, ¬ Rejected j cause
  /-- Then the packages that were left out are those of the graph. -/
  told : ∀ r assembly, assembleJson j = .ok (r, assembly) → skippedJson j = assembly.skipped

section Ends

variable {a : Artifact} (ha : Artifact.ofJson j = .ok a)
  (hroot : ∀ cause, a.root = .error cause ↔ Rejected j cause)

include ha hroot

/-- Where the root fails, that is all that happens. -/
theorem failsAtRoot_of_error {cause : RootError} (hc : a.root = .error cause) : FailsAtRoot j := by
  have hassemble := assembleJson_of_root_error ha hc
  have hrejected : ∀ other, Rejected j other ↔ other = cause := by
    intro other
    rw [← hroot, hc, Except.error.injEq, eq_comm]
  refine ⟨⟨a, ha, hroot⟩, fun e => ?_, fun e he => ?_, fun e _ => skippedJson_of_root_error ha hc,
    ?_, fun _ _ => skippedJson_eq_skipped⟩
  · rw [hassemble]
    simp only [Except.error.injEq, hrejected, exists_eq_right]
    exact eq_comm
  · rw [hassemble] at he
    rw [← Except.error.inj he]
    rfl
  · simp [hassemble, hrejected]

/-- Where there is a root and all results are read, nothing fails. -/
theorem failsAtRoot_of_root {root : Component} {r : Report} (hc : a.root = .ok root)
    (hr : Report.ofJson a j = .ok r) : FailsAtRoot j := by
  obtain ⟨assembly, -, hassemble⟩ := assembleJson_of_root ha hc hr
  have hnone : ∀ cause, ¬ Rejected j cause := by
    intro cause hcause
    have he := (hroot cause).2 hcause
    rw [hc] at he
    contradiction
  have hok : ∀ e, assembleJson j ≠ .error e := by
    intro e he
    rw [hassemble] at he
    contradiction
  refine ⟨⟨a, ha, hroot⟩, fun e => ?_, fun e he => absurd he (hok e), fun e he => absurd he (hok e),
    ?_, fun _ _ => skippedJson_eq_skipped⟩
  · simp [hok, hnone]
  · exact ⟨fun _ => hnone, fun _ => ⟨r, assembly, hassemble⟩⟩

end Ends

/-- **A report of the scanner's types fails just where its root does**, and
with that as the cause; no package has been left out by then. -/
theorem fails_at_root (j : Json) (h : isTyped j) : FailsAtRoot j := by
  obtain ⟨a, ha, hdescribes⟩ := artifact_of_isTyped h
  have hroot := root_error_iff_rejected h hdescribes
  cases hc : a.root with
  | error cause => exact failsAtRoot_of_error ha hroot hc
  | ok root =>
    -- the results are read, whatever they hold
    obtain ⟨r, hr⟩ := ofJson_of_isTyped h a
    exact failsAtRoot_of_root ha hroot hc hr

/-- A bill of materials whose component has a package URL without the scheme;
in a lock file, a package with one that is as bad. -/
def misdeclared : Json := .object [
  ("SchemaVersion", .number (.ofNat 2)),
  ("ArtifactName", .text "app.cdx.json"),
  ("ArtifactType", .text "cyclonedx"),
  ("Metadata", .object []),
  ("Results", .array [.object [
    ("Target", .text "package-lock.json"),
    ("Class", .text "lang-pkgs"),
    ("Packages", .array [.object [
      ("Name", .text "lib"),
      ("Version", .text "1"),
      ("Identifier", .object [("PURL", .text "npm:lib@1")])]])]]),
  ("CycloneDX", .object [("Metadata", .object [("Component", .object [
    ("Name", .text "app"),
    ("PackageURL", .text "npm:app@1")])])])]

theorem misdeclared_fails_at_root : isTyped misdeclared ∧ FailsAtRoot misdeclared
    ∧ assembleJson misdeclared = .error (.root (.purl (.unreadable "npm:app@1" .noScheme))) := by
  have htyped : isTyped misdeclared := by decide +kernel
  have hfails := fails_at_root misdeclared htyped
  refine ⟨htyped, hfails, (hfails.error_iff _).2 ⟨_, rfl, ?_⟩⟩
  exact .declared (by decide +kernel) rfl rfl (by decide) (by decide +kernel)

end Report

end ComponentGraph
