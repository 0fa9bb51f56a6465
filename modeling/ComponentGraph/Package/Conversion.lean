/-
  ComponentGraph.Package.Conversion
  ────────────────────────────────
  **FROM A PACKAGE TO A COMPONENT.**

  The identity of a package comes from its package URL where it has one: the
  URL holds the resolved version, and in two ecosystems its namespace is a
  real group.  All else is carried over field by field.  What can go wrong is
  an unreadable package URL, and a field without the shape that its use needs.
-/
import ComponentGraph.Package.Basic
import ComponentGraph.Purl.Reading

namespace ComponentGraph

/-! ## §1. Identity. -/

/-- Under which name, group and version a package appears. -/
structure Identity where
  name : Field
  group : Field
  version : Field
  purl : Option Purl
  deriving Repr, DecidableEq

inductive ConversionError where
  | purl (error : PackageUrlError)
  /-- A field has not the shape that its use needs. -/
  | shape (fault : ShapeFault)
  deriving Repr, DecidableEq

/-- The kind of the error, as records name it. -/
def ConversionError.kind : ConversionError → String
  | .purl _ => "PackageUrlError"
  | .shape _ => "TypeError"

/-- Is the namespace of such package URLs a real group? -/
def Purl.hasGroup (p : Purl) : Bool := p.type = "maven" || p.type = "npm"

namespace Package

def identity (p : Package) : Except PackageUrlError Identity :=
  if !p.purl.isFilled then .ok ⟨p.name, .ofText "", p.version, none⟩
  else
    (Purl.read p.purl).map fun purl =>
      let version : Field := .ofText (purl.version.getD "")
      if purl.hasGroup then
        ⟨.ofText purl.name, .ofText (purl.scope.getD ""), version, some purl⟩
      else ⟨p.name, .ofText "", version, some purl⟩

/-! ## §2. Conversion. -/

/-- The fields that become properties of a package of this type under this
key, by name. -/
def described (p : Package) (type : Field) (key : Json) : List (String × Field) := [
  ("PkgID", some key),
  ("PkgType", type),
  ("FilePath", p.filePath),
  ("SrcName", p.sourceName),
  ("SrcVersion", p.sourceVersion),
  ("SrcRelease", p.sourceRelease),
  (Property.sourceEpoch, p.sourceEpoch),
  ("Modularitylabel", p.modularityLabel),
  ("LayerDigest", p.layerDigest),
  ("LayerDiffID", p.layerDiffId)]

/-- The properties of a package of this type under this key. -/
def properties (p : Package) (type : Field) (key : Json) : List Property :=
  Property.telling ((p.described type key).map fun (name, field) => .ofField name field)

/-- The library component of a package with this identity and these licenses. -/
def library (p : Package) (identity : Identity) (licenses : List Json) (type : Field)
    (key : Json) (vulnerabilities : Option (List Vulnerability)) : Component where
  type := some ComponentType.library.name
  name := identity.name
  group := identity.group.ifFilled
  version := identity.version.ifFilled
  purl := identity.purl.map (·.withPath p.filePath)
  supplier := p.maintainer.ifFilled
  licenses := if licenses = [] then none else some licenses
  hashes := p.digest.ifFilled.map ([·])
  properties := p.properties type key
  vulnerabilities

/-- The library component of a package, if it can be converted. -/
def component (p : Package) (type : Field) (key : Json)
    (vulnerabilities : Option (List Vulnerability)) : Except ConversionError Component := do
  if !p.purl.isSpellable then .error (.shape .noSpelling)
  let identity ← p.identity.mapError .purl
  if !(p.described type key).all fun (_, field) => field.isSpellable then
    .error (.shape .noSpelling)
  let licenses ← p.licenses.counted.mapError .shape
  return p.library identity licenses type key vulnerabilities

end Package

end ComponentGraph
