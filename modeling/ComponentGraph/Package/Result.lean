/-
  ComponentGraph.Package.Result
  ────────────────────────────────
  **RESULTS AND THEIR INDEX.**

  A result lists the packages of one target and the vulnerabilities matched
  against them.  Both are looked up by key:

      index       — for each key its last package, in order of first mention
      entries     — the index with every package converted
      candidates  — the keys with which building starts: all but those of
                    indirect packages on which something depends
-/
import ComponentGraph.Package.Conversion

namespace ComponentGraph

/-! ## §1. Results. -/

/-- What one target contributed to a report: its packages, and the
vulnerabilities matched against them. -/
structure Result where
  target : Field
  type : Field
  class_ : Field
  packages : List Package
  vulnerabilities : List Vulnerability
  deriving Repr, DecidableEq

namespace Result

/-! ## §2. The index. -/

/-- For each key the last package that has it, in order of first mention. -/
def index (r : Result) : List (Json × Package) :=
  Table.ofList (r.packages.map fun p => (p.key, p))

/-- For each key the vulnerabilities that name it. -/
def vulnerabilityIndex (r : Result) : List (Json × List Vulnerability) :=
  Table.group (r.vulnerabilities.map fun v => (v.key, v))

/-- An entry of the index, converted. -/
structure Entry where
  key : Json
  package : Package
  outcome : Except ConversionError Component
  deriving Repr

def entries (r : Result) : List Entry :=
  let vulnerabilities := r.vulnerabilityIndex
  r.index.map fun (key, p) =>
    ⟨key, p, p.component r.type key (Table.find? key vulnerabilities)⟩

def entryOf? (entries : List Entry) (key : Json) : Option Entry :=
  entries.find? (·.key = key)

def candidates (r : Result) : List Json :=
  (r.index.filter fun (key, p) => !(p.indirect && hasParent r.packages key)).map (·.1)

end Result

end ComponentGraph
