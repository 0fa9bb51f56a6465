/-
  ComponentGraph.Report.Assembly
  ────────────────────────────────
  **FROM A REPORT TO A COMPONENT GRAPH.**

  The root stands for the artifact; its children are what the results
  contribute, in result order:

      floating packages   — hang straight off the root
      packages of the OS  — go below a component for the operating system
      packages of a lock file — go below a component for the application
      anything else       — contributes nothing

  Assembling a `Report` fails only where its artifact has no root.  Reading a
  report from JSON can fault as well: inside the root's part, where the fault
  is the cause of the same failure, or in a result, where it is a failure of
  its own.
-/
import ComponentGraph.Report.Artifact
import ComponentGraph.Package.Forest

namespace ComponentGraph

/-! ## §1. Contributions of results. -/

namespace Result

/-- Types of packages that are found outside any lock file. -/
def floatingTypes : List String := ["node-pkg", "python-pkg", "gemspec", "jar", "conda-pkg"]

/-- How the packages of a result hang in the graph. -/
inductive Placement where
  /-- Straight off the root. -/
  | floating
  /-- Below a component of the operating system. -/
  | operatingSystem
  /-- Below a component of an application. -/
  | application
  | nowhere
  deriving Repr, DecidableEq

def isFloating (type : Field) : Bool :=
  match type with
  | some (.text s) => floatingTypes.contains s
  | _ => false

/-- The placement of a result of this type and class. -/
def placement (type class_ : Field) : Placement :=
  if isFloating type then .floating
  else if class_ = .ofText "os-pkgs" then .operatingSystem
  else if class_ = .ofText "lang-pkgs" then .application
  else .nowhere

/-- The component above the packages of a result. -/
def component (os : Option OS) (target type class_ : Field) : Component :=
  let plain : Component := {
    name := target
    properties := Property.telling [.ofField "Type" type, .ofField "Class" class_] }
  if class_ = .ofText "os-pkgs" then
    let typed := { plain with type := some ComponentType.operatingSystem.name }
    match os with
    | some os => { typed with name := os.family, version := os.name.ifFilled }
    | none => typed
  else if class_ = .ofText "lang-pkgs" then
    { plain with type := some ComponentType.application.name }
  else plain

/-- What the result contributes to the root's children. -/
def contribution (os : Option OS) (r : Result) : Forest :=
  match placement r.type r.class_ with
  | .floating => r.forest
  | .operatingSystem | .application =>
    (Rooted.above (component os r.target r.type r.class_) r.forest).toForest
  | .nowhere => .empty

/-- The packages that were left out of the contribution. -/
def contributionSkipped (r : Result) : List Skip :=
  if placement r.type r.class_ = .nowhere then [] else r.skipped

/-! ## §2. Reading results. -/

/-- The head of a result, without packages and vulnerabilities. -/
def head (j : Json) : Result where
  target := j.get? "Target"
  type := j.get? "Type"
  class_ := j.get? "Class"
  packages := []
  vulnerabilities := []

def packagesOf (f : Field) : Except ShapeFault (List Package) := do
  (← f.items).mapM Package.keyedOfJson

def ofJson (j : Json) : Except ShapeFault Result := do
  let j ← Field.need (some j)
  return { head j with
    packages := ← packagesOf (j.get? "Packages")
    vulnerabilities := ← (← (j.get? "Vulnerabilities").items).mapM Vulnerability.ofJson }

/-- Read a result of a report with this metadata.  Only what contributes is
read to the end; the type of a result with a component of its own is one of
its properties, and an operating system is looked up in the metadata. -/
def ofReport (metadata : Field) (j : Json) : Except ShapeFault Result := do
  let j ← Field.need (some j)
  match placement (j.get? "Type") (j.get? "Class") with
  | .nowhere => return head j
  | .operatingSystem => do
    let _ ← (j.get? "Type").spelled
    -- the operating system is asked for even where there is none
    let _ ← metadata.need
    ofJson j
  | .application => do
    let _ ← (j.get? "Type").spelled
    ofJson j
  | .floating => ofJson j

/-- The results of a list up to the first one that cannot be read. -/
def readable (metadata : Field) : List Json → List Result
  | [] => []
  | j :: rest =>
    match ofReport metadata j with
    | .ok r => r :: readable metadata rest
    | .error _ => []

end Result

/-! ## §3. Reports. -/

/-- A report: an artifact, and the results in order. -/
structure Report where
  artifact : Artifact
  results : List Result
  deriving Repr, DecidableEq

/-- The graph of a report, with the packages that were left out. -/
structure Assembly where
  graph : Rooted
  skipped : List Skip
  deriving Repr

namespace Report

def contributions (os : Option OS) (results : List Result) : Forest :=
  results.foldl (fun acc r => acc.append (r.contribution os)) .empty

/-- The graph of a report, or why there is no root. -/
def assemble (r : Report) : Except RootError Assembly :=
  r.artifact.root.map fun root =>
    { graph := Rooted.above root (contributions r.artifact.metadata.os r.results)
      skipped := r.results.flatMap Result.contributionSkipped }

end Report

/-! ## §4. Assembling what JSON says. -/

/-- Why a JSON value gives no component graph. -/
inductive AssemblyError where
  | root (cause : RootError)
  /-- The artifact is not described as it should be. -/
  | rootShape (fault : ShapeFault)
  /-- A result is not described as it should be. -/
  | shape (fault : ShapeFault)
  deriving Repr, DecidableEq

/-- The wording; a fault in a result has none. -/
def AssemblyError.message : AssemblyError → Option String
  | .root _ | .rootShape _ => some "failed to marshal report"
  | .shape _ => none

/-- The report that a JSON value describes, its artifact being known. -/
def Report.ofJson (artifact : Artifact) (j : Json) : Except ShapeFault Report := do
  return {
    artifact
    results := ← (← (j.get? "Results").items).mapM (Result.ofReport (j.get? "Metadata")) }

/-- The graph of the report that a JSON value describes.  The root is built
before any result is read. -/
def assembleJson (j : Json) : Except AssemblyError (Report × Assembly) := do
  let artifact ← (Artifact.ofJson j).mapError .rootShape
  let _ ← artifact.root.mapError .root
  let report ← (Report.ofJson artifact j).mapError .shape
  let assembly ← report.assemble.mapError .root
  return (report, assembly)

/-- The packages that are left out on the way, also where a fault in a later
result ends it.  Without a root no result is looked at. -/
def skippedJson (j : Json) : List Skip :=
  match Artifact.ofJson j with
  | .error _ => []
  | .ok artifact =>
    match artifact.root, (j.get? "Results").items with
    | .ok _, .ok results =>
      (Result.readable (j.get? "Metadata") results).flatMap Result.contributionSkipped
    | _, _ => []

end ComponentGraph
