/-
  ComponentGraph.Component
  ────────────────────────────────
  **COMPONENTS.**

  A component is one entry of a software bill of materials: a container, an
  operating system, an application or a library.  Its name, group and version
  are fields, carried from the report as they were found; so are its
  vulnerabilities.  Every property this tool writes has the tool's scope.
-/
import ComponentGraph.Purl.Basic
import ComponentGraph.Json.Basic

namespace ComponentGraph

/-! ## §1. Types. -/

/-- The kinds of components that the tool knows. -/
inductive ComponentType where
  | container
  | operatingSystem
  | application
  | library
  deriving Repr, DecidableEq

namespace ComponentType

def name : ComponentType → String
  | .container => "container"
  | .operatingSystem => "operating-system"
  | .application => "application"
  | .library => "library"

def ofName? (s : String) : Option ComponentType :=
  [container, operatingSystem, application, library].find? (·.name = s)

/-- The type that a field names, if it names one. -/
def ofField? : Field → Option ComponentType
  | some (.text s) => ofName? s
  | _ => none

end ComponentType

/-! ## §2. Properties. -/

/-- The scope of every property that this tool writes. -/
def toolScope : String := "bomgraph:"

/-- A named value; its full name is the scope followed by the name. -/
structure Property where
  scope : String
  name : String
  value : Field
  deriving Repr, DecidableEq

namespace Property

/-- A property of this tool.  An absent value becomes an empty text. -/
def ofField (name : String) (value : Field) : Property :=
  ⟨toolScope, name, .ofText (match value with
    | none => ""
    | some v => v.inText)⟩

/-- The name of the one property for which zero means that there is none. -/
def sourceEpoch : String := "SrcEpoch"

/-- Does the property tell something?  An empty value does not, and neither
does a source epoch of zero. -/
def isTelling (p : Property) : Bool :=
  !(p.value = .ofText "" || (p.name = sourceEpoch && p.value = .ofText "0"))

def telling (ps : List Property) : List Property := ps.filter isTelling

def fullName (p : Property) : String := p.scope ++ p.name

end Property

/-! ## §3. Vulnerabilities and components. -/

/-- A vulnerability that a scanner has matched against a package; its record
is carried through unchanged. -/
structure Vulnerability where
  record : Json
  deriving Repr, DecidableEq

/-- The identifier under which the vulnerability is listed. -/
def Vulnerability.id (v : Vulnerability) : Field := v.record.get? "VulnerabilityID"

/-- A component, without its place in a graph. -/
structure Component where
  type : Option String := none
  name : Field
  group : Field := none
  version : Field := none
  supplier : Field := none
  licenses : Option (List Json) := none
  hashes : Option (List Json) := none
  properties : List Property := []
  vulnerabilities : Option (List Vulnerability) := none
  purl : Option Purl := none
  deriving Repr, DecidableEq

namespace Component

/-- The name, with the version behind an at sign if there is one. -/
def nameAtVersion (c : Component) : Field :=
  if c.version.isFilled then .ofText (c.name.inText ++ "@" ++ c.version.inText) else c.name

/-- The component with its package URL's name in the ecosystem's spelling. -/
def settled (c : Component) : Component := { c with purl := c.purl.map Purl.settled }

def vulnerabilityList (c : Component) : List Vulnerability := c.vulnerabilities.getD []

def vulnerabilityCount (c : Component) : Nat := c.vulnerabilityList.length

end Component

end ComponentGraph
