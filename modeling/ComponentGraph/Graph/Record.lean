/-
  ComponentGraph.Graph.Record
  ────────────────────────────────
  **GRAPHS WRITTEN AS RECORDS.**

  A component can be written as a record, an object with a member for each
  field that is there, its package URL as text.  A list of records is a graph:
  the member `components` holds the numbers of a record's children in the
  list, and the first record is the root.
-/
import ComponentGraph.Graph.Basic
import ComponentGraph.Purl.Reading

namespace ComponentGraph

/-! ## §1. Components. -/

def Property.ofRecord (j : Json) : Property :=
  ⟨(j.get? "namespace").inText, (j.get? "name").inText, j.get? "value"⟩

def Field.array? : Field → Option (List Json)
  | some (.array items) => some items
  | _ => none

def Field.text? : Field → Option String
  | some (.text s) => some s
  | _ => none

namespace Component

def blank : Component := { name := none }

/-- The package URL of a record; an absent field has none. -/
def recordPurl (value : Field) : Except PackageUrlError (Option Purl) :=
  if value.isSome then (Purl.read value).map some else .ok none

/-- The component with another value of one field; other names than those of
fields change nothing.  Only a package URL can be refused. -/
def withField (c : Component) (name : String) (value : Field) : Except PackageUrlError Component :=
  if name = "type" then .ok { c with type := value.text? }
  else if name = "name" then .ok { c with name := value }
  else if name = "group" then .ok { c with group := value }
  else if name = "version" then .ok { c with version := value }
  else if name = "supplier" then .ok { c with supplier := value }
  else if name = "licenses" then .ok { c with licenses := value.array? }
  else if name = "hashes" then .ok { c with hashes := value.array? }
  else if name = "properties" then
    .ok { c with properties := (value.array?.getD []).map Property.ofRecord }
  else if name = "vulnerabilities" then
    .ok { c with vulnerabilities := value.array?.map (·.map Vulnerability.mk) }
  else if name = "purl" then (recordPurl value).map fun purl => { c with purl }
  else .ok c

def members : Json → List (String × Json)
  | .object ms => ms
  | _ => []

def ofRecord (j : Json) : Except PackageUrlError Component :=
  (members j).foldlM (fun c (name, value) => c.withField name (some value)) blank

end Component

/-! ## §2. Graphs. -/

def childNumbers (n : Nat) (f : Field) : List (Fin n) :=
  (f.array?.getD []).filterMap fun
    | .number k => k.toNat?.bind fun i => if h : i < n then some ⟨i, h⟩ else none
    | _ => none

/-- The graph of a list of records; none of an empty list. -/
def Rooted.ofRecords (records : List Json) : Except PackageUrlError (Option Rooted) :=
  if h : 0 < records.length then do
    let read : Vector Json records.length := ⟨records.toArray, by simp⟩
    let nodes ← read.mapM fun j => do
      return (⟨← Component.ofRecord j, childNumbers records.length (j.get? "components")⟩ :
        Node records.length)
    return some ⟨records.length, ⟨nodes⟩, ⟨0, h⟩⟩
  else .ok none

end ComponentGraph
