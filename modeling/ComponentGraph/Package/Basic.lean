/-
  ComponentGraph.Package.Basic
  ────────────────────────────────
  **PACKAGES AND THEIR KEYS.**

  A scanner lists the packages of a result.  A package is keyed by its own
  identifier, or else by name and formatted version; vulnerabilities name
  their package by the same keys.

      formattedVersion — epoch, version and release, as in `1:2.4.0-r3`
      key              — the identifier, or `name@formattedVersion`
      parents          — for each key, the packages that depend on it
-/
import ComponentGraph.Json.Shape
import ComponentGraph.Component

namespace ComponentGraph

/-! ## §1. Packages. -/

structure Package where
  id : Field
  name : Field
  version : Field
  release : Field
  epoch : Field
  /-- The package URL, still as text. -/
  purl : Field
  filePath : Field
  sourceName : Field
  sourceVersion : Field
  sourceRelease : Field
  sourceEpoch : Field
  modularityLabel : Field
  layerDigest : Field
  layerDiffId : Field
  maintainer : Field
  digest : Field
  licenses : Field
  /-- Is the package there only because another one needs it? -/
  indirect : Bool
  /-- The keys of the packages that this one depends on. -/
  dependsOn : List Json
  deriving Repr, DecidableEq

namespace Package

/-- The version with release and epoch, where there are any. -/
def formattedVersion (p : Package) : Field :=
  let released : Field :=
    if p.release.isFilled then .ofText (p.version.inText ++ "-" ++ p.release.inText)
    else p.version
  if p.epoch.isFilled then .ofText (p.epoch.inText ++ ":" ++ released.inText) else released

/-- The identifier if there is one, else name and formatted version. -/
def key (p : Package) : Json :=
  match p.id.ifFilled with
  | some id => id
  | none => .text (p.name.inText ++ "@" ++ p.formattedVersion.inText)

def ofJson (j : Json) : Except ShapeFault Package := do
  let j ← Field.need (some j)
  let identifier := j.get? "Identifier"
  let layer := j.get? "Layer"
  return {
    id := j.get? "ID"
    name := j.get? "Name"
    version := j.get? "Version"
    release := j.get? "Release"
    epoch := j.get? "Epoch"
    purl := identifier.get? "PURL"
    filePath := j.get? "FilePath"
    sourceName := j.get? "SrcName"
    sourceVersion := j.get? "SrcVersion"
    sourceRelease := j.get? "SrcRelease"
    sourceEpoch := j.get? "SrcEpoch"
    modularityLabel := j.get? "Modularitylabel"
    layerDigest := layer.get? "Digest"
    layerDiffId := layer.get? "DiffID"
    maintainer := j.get? "Maintainer"
    digest := j.get? "Digest"
    licenses := j.get? "Licenses"
    indirect := (j.get? "Indirect").isFilled
    dependsOn := ← (j.get? "DependsOn").items }

def hasKey (p : Package) : Bool :=
  p.id.isFilled
    || p.name.isSpellable && p.version.isSpellable && p.release.isSpellable
      && p.epoch.isSpellable

/-- Read a package that will be looked up by its key. -/
def keyedOfJson (j : Json) : Except ShapeFault Package := do
  let p ← ofJson j
  if p.hasKey then .ok p else .error .noSpelling

end Package

/-! ## §2. Keys of vulnerabilities. -/

/-- The key of the package that the vulnerability names. -/
def Vulnerability.key (v : Vulnerability) : Json :=
  match (v.record.get? "PkgID").ifFilled with
  | some id => id
  | none =>
    .text ((v.record.get? "PkgName").inText ++ "@" ++ (v.record.get? "InstalledVersion").inText)

def Vulnerability.hasKey (v : Vulnerability) : Bool :=
  (v.record.get? "PkgID").isFilled
    || (v.record.get? "PkgName").isSpellable && (v.record.get? "InstalledVersion").isSpellable

/-- Read a vulnerability, which will be looked up by its key. -/
def Vulnerability.ofJson (j : Json) : Except ShapeFault Vulnerability := do
  let v := Vulnerability.mk (← Field.need (some j))
  if v.hasKey then .ok v else .error .noSpelling

/-! ## §3. Parents. -/

/-- The pairs of a package's key and the key of one that it needs, in order. -/
def edges (packages : List Package) : List (Json × Json) :=
  packages.flatMap fun p => p.dependsOn.map fun dep => (dep, p.key)

/-- For each key that is depended on, the keys of the packages that do so,
once per mention. -/
def parents (packages : List Package) : List (Json × List Json) := Table.group (edges packages)

def hasParent (packages : List Package) (key : Json) : Bool :=
  ((Table.find? key (parents packages)).getD []) ≠ []

end ComponentGraph
