/-
  ComponentGraph.Report.Artifact
  ────────────────────────────────
  **THE SCANNED ARTIFACT.**

  A report is about one artifact: an image, a file system, a repository, a
  machine, or a bill of materials that was scanned as such.  The artifact
  becomes the root of the component graph:

      Artifact.root — the root component, or why there is none

  It fails for exactly three reasons: an image whose first repo digest is
  malformed, a scanned bill of materials without a component of its own, and
  one whose component has an unreadable package URL.  A report is read in the
  order in which the root is made of it, and no further than where that fails,
  so that of several faults the first one is told.
-/
import ComponentGraph.Json.Shape
import ComponentGraph.Component
import ComponentGraph.Purl.Reading

namespace ComponentGraph

/-! ## §1. What a report says of its artifact. -/

inductive ArtifactKind where
  | containerImage
  | vm
  | filesystem
  | repository
  | cyclonedx
  | other
  deriving Repr, DecidableEq

def ArtifactKind.ofField : Field → ArtifactKind
  | some (.text s) =>
    if s = "container_image" then .containerImage
    else if s = "vm" then .vm
    else if s = "filesystem" then .filesystem
    else if s = "repository" then .repository
    else if s = "cyclonedx" then .cyclonedx
    else .other
  | _ => .other

structure OS where
  family : Field
  name : Field
  deriving Repr, DecidableEq

/-- What a scanner found out about the artifact as a whole. -/
structure Metadata where
  size : Field := none
  os : Option OS := none
  imageId : Field := none
  architecture : Field := none
  diffIds : List Json := []
  repoTags : List Json := []
  repoDigests : List Json := []
  /-- The one by which an image is named. -/
  repoDigest : Field := repoDigests.head?
  deriving Repr, DecidableEq

/-- The component that a scanned bill of materials declares for itself. -/
structure Declaration where
  name : Field
  group : Field
  version : Field
  type : Field
  purl : Field
  properties : List (String × Field)
  deriving Repr, DecidableEq

structure Artifact where
  name : Field
  kind : ArtifactKind
  schemaVersion : Field
  metadata : Metadata
  /-- Of a scanned bill of materials only. -/
  declaration : Option Declaration
  deriving Repr, DecidableEq

/-! ## §2. The image's package URL. -/

namespace Metadata

/-- The first repo digest, if it is a text that is not empty. -/
def firstDigest (m : Metadata) : Option String :=
  match m.repoDigest with
  | some (.text s) => if s = "" then none else some s
  | _ => none

/-- Is the first repo digest something else than a text? -/
def oddDigest (m : Metadata) : Bool :=
  match m.repoDigest with
  | some (.text _) => false
  | f => Field.isFilled f

/-- The package URL of an image: that of its first repo digest.  An image
that was never pushed has none. -/
def imagePurl (m : Metadata) : Except PackageUrlError (Option Purl) :=
  match m.firstDigest with
  | none => .ok none
  | some digest => do
    let reference ← Image.Reference.read digest
    let purl ← (reference.purl m.architecture).checked.mapError (.unbuildable digest)
    return some purl

end Metadata

/-! ## §3. Reading. -/

namespace OS

def ofMetadata (j : Json) : Option OS :=
  let f := j.get? "OS"
  if f.isFilled then some ⟨f.get? "Family", f.get? "Name"⟩ else none

end OS

namespace Metadata

/-- The parts of a metadata object that are taken as they are. -/
def single (j : Json) : Metadata where
  size := j.get? "Size"
  os := OS.ofMetadata j
  imageId := j.get? "ImageID"
  architecture := (j.get? "ImageConfig").get? "architecture"
  repoDigest := (j.get? "RepoDigests").first

/-- Read a metadata object: its size and its lists will be properties. -/
def ofJson (j : Json) : Except ShapeFault Metadata := do
  let m := single j
  let _ ← m.size.spelled
  return { m with
    repoDigests := ← (j.get? "RepoDigests").joinable
    diffIds := ← (j.get? "DiffIDs").joinable
    repoTags := ← (j.get? "RepoTags").joinable }

/-- Read what an image is named by.  A first digest must be a text. -/
def ofNamed (j : Json) : Except ShapeFault Metadata :=
  if (single j).oddDigest then .error .noText else .ok (single j)

/-- Read the metadata of an image.  Its package URL is made before its size and
its lists are looked at; where that fails they never are. -/
def ofImage (j : Json) : Except ShapeFault Metadata := do
  let _ ← (j.get? "ImageID").spelled
  let m ← ofNamed j
  match m.imagePurl with
  | .ok _ => ofJson j
  | .error _ => return m

/-- Read the metadata of an artifact of this kind.  They must be there, except
for a scanned bill of materials. -/
def ofKind (kind : ArtifactKind) (f : Field) : Except ShapeFault Metadata :=
  match kind with
  | .cyclonedx => .ok ((f.value?.map single).getD {})
  | .containerImage => do ofImage (← f.need)
  | _ => do ofJson (← f.need)

end Metadata

namespace Declaration

def propertyOfJson (j : Json) : Except ShapeFault (String × Field) := do
  let j ← Field.need (some j)
  return (← (j.get? "Name").text, j.get? "Value")

def ofField (f : Field) : Except ShapeFault Declaration := do
  let j ← f.need
  let properties ← match (j.get? "Properties").value? with
    | none => .ok []
    | some (.array items) => items.mapM propertyOfJson
    | some _ => .error .noList
  return {
    name := j.get? "Name"
    group := j.get? "Group"
    version := j.get? "Version"
    type := j.get? "Type"
    purl := ← (j.get? "PackageURL").spelled
    properties }

/-- The declaration of a document's metadata, if there is a document. -/
def ofDocument (f : Field) : Except ShapeFault (Option Declaration) :=
  if f.isFilled then do
    let metadata ← (f.get? "Metadata").need
    some <$> ofField (metadata.get? "Component")
  else .ok none

end Declaration

/-- Read the artifact of a report. -/
def Artifact.ofJson (report : Json) : Except ShapeFault Artifact := do
  let j ← Field.need (some report)
  let name := j.get? "ArtifactName"
  let kind := ArtifactKind.ofField (j.get? "ArtifactType")
  let schemaVersion ← (j.get? "SchemaVersion").spelled
  let metadata ← Metadata.ofKind kind (j.get? "Metadata")
  let declaration ← if kind = .cyclonedx then Declaration.ofDocument (j.get? "CycloneDX")
    else .ok none
  -- without a declaration the name goes into a message
  if kind = .cyclonedx ∧ declaration = none ∧ !name.isSpellable then .error .noSpelling
  return { name, kind, schemaVersion, metadata, declaration }

/-! ## §4. The declared component. -/

namespace Declaration

/-- The name without the tool's scope, if it begins with it. -/
def bareName (name : String) : String :=
  if toolScope.toList.isPrefixOf name.toList then
    String.ofList (name.toList.drop toolScope.toList.length)
  else name

/-- A declared property in the tool's scope.  A name that carries the scope
already loses it, so that it is not there twice. -/
def property (name : String) (value : Field) : Property := ⟨toolScope, bareName name, value⟩

def component (d : Declaration) : Except PackageUrlError Component := do
  let purl ← if d.purl.isFilled then some <$> Purl.read d.purl else .ok none
  return {
    type := (ComponentType.ofField? d.type).map ComponentType.name
    name := d.name
    group := d.group.ifFilled
    version := d.version.ifFilled
    properties := d.properties.map fun (name, value) => property name value
    purl }

end Declaration

/-! ## §5. The root. -/

inductive RootError where
  | purl (error : PackageUrlError)
  /-- The bill of materials with this name declares no component. -/
  | undeclared (name : Field)
  deriving Repr, DecidableEq

def RootError.message : RootError → String
  | .purl error => error.message
  | .undeclared name => "CycloneDX artifact " ++ name.inText ++ " has no metadata component"

namespace Artifact

def rootType (a : Artifact) : Option ComponentType :=
  match a.kind with
  | .containerImage | .vm => some .container
  | .filesystem | .repository => some .application
  | .cyclonedx | .other => none

/-- A list as the value of a property; nothing for an empty list. -/
def listed (name : String) (items : List Json) : List Property :=
  if items = [] then [] else [.ofField name (.ofText (Json.joined items))]

def properties (a : Artifact) : List Property :=
  let m := a.metadata
  Property.telling (
    [.ofField "SchemaVersion" a.schemaVersion]
      ++ (if a.kind = .containerImage then [.ofField "ImageID" m.imageId] else [])
      ++ (if m.size.isFilled then [.ofField "Size" m.size] else [])
      ++ listed "RepoDigest" m.repoDigests
      ++ listed "DiffID" m.diffIds
      ++ listed "RepoTag" m.repoTags)

def root (a : Artifact) : Except RootError Component :=
  match a.kind, a.declaration with
  | .cyclonedx, none => .error (.undeclared a.name)
  | .cyclonedx, some d => d.component.mapError .purl
  | kind, _ => do
    let purl ← if kind = .containerImage then a.metadata.imagePurl.mapError .purl else .ok none
    return {
      type := a.rootType.map ComponentType.name
      name := a.name
      properties := a.properties
      purl }

end Artifact

end ComponentGraph
