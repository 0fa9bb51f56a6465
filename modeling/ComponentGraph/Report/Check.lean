/-
  ComponentGraph.Report.Check
  ────────────────────────────────
  **IS THIS A REPORT?**

  The check looks at the parts of a document that the rest relies on, in a
  fixed order, and names the first one that is not as it should be.  Results
  and packages are named by their positions.
-/
import ComponentGraph.Json.Basic

namespace ComponentGraph

/-- What keeps a value from being a report. -/
inductive Problem where
  | noObject
  | artifactName
  | artifactType
  | metadata
  | results
  /-- The result at this position has no target. -/
  | target (result : Nat)
  /-- The packages of the result at this position are no list. -/
  | packages (result : Nat)
  /-- The package at this position of a result is no object. -/
  | package (result position : Nat)
  /-- The dependencies of the package at this position are no list. -/
  | dependsOn (result position : Nat)
  deriving Repr, DecidableEq

namespace Problem

def message : Problem → String
  | .noObject => "report must be a JSON object"
  | .artifactName => "missing 'ArtifactName'"
  | .artifactType => "missing 'ArtifactType'"
  | .metadata => "'Metadata' must be an object"
  | .results => "'Results' must be an array"
  | .target i => "result " ++ i.repr ++ " has no 'Target'"
  | .packages i => "result " ++ i.repr ++ " 'Packages' must be an array"
  | .package i j => "result " ++ i.repr ++ " package " ++ j.repr ++ " must be an object"
  | .dependsOn i j =>
    "result " ++ i.repr ++ " package " ++ j.repr ++ " 'DependsOn' must be an array"

end Problem

namespace Report

/-! ## §1. Shapes. -/

def isText : Field → Bool
  | some (.text _) => true
  | _ => false

def isArrayOrAbsent : Field → Bool
  | none | some (.array _) => true
  | _ => false

/-- The items of an array; none of anything else. -/
def arrayItems : Field → List Json
  | some (.array items) => items
  | _ => []

/-- The first problem among items, each looked at with its position. -/
def firstProblem (look : Nat → Json → Option Problem) : Nat → List Json → Option Problem
  | _, [] => none
  | i, j :: rest => (look i j).or (firstProblem look (i + 1) rest)

/-! ## §2. The check. -/

def checkPackage (result position : Nat) (j : Json) : Option Problem :=
  if !j.isObject then some (.package result position)
  else if !isArrayOrAbsent (j.get? "DependsOn") then some (.dependsOn result position)
  else none

def checkResult (i : Nat) (j : Json) : Option Problem :=
  if !(j.isObject && isText (j.get? "Target")) then some (.target i)
  else if !isArrayOrAbsent (j.get? "Packages") then some (.packages i)
  else firstProblem (checkPackage i) 0 (arrayItems (j.get? "Packages"))

def checkJson (j : Json) : Option Problem :=
  if !j.isObject then some .noObject
  else if !isText (j.get? "ArtifactName") || j.get? "ArtifactName" = .ofText "" then
    some .artifactName
  else if !isText (j.get? "ArtifactType") then some .artifactType
  else if !((j.get? "Metadata").all Json.isObject) then some .metadata
  else if !isArrayOrAbsent (j.get? "Results") then some .results
  else firstProblem checkResult 0 (arrayItems (j.get? "Results"))

/-- The first problem of a field; there must be something. -/
def check (f : Field) : Option Problem :=
  match f with
  | none => some .noObject
  | some j => checkJson j

end Report

end ComponentGraph
