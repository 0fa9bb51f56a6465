/-
  ComponentGraph.View.Summary
  ────────────────────────────────
  **COUNTS.**

  How many components a graph has below a root, how many vulnerabilities
  they carry, and how many components there are of each type.  A component
  counts once, however often it is shared.  The order in which components are
  counted is not that of the tree, and shows in the order of the types only.
-/
import ComponentGraph.View.Tree

namespace ComponentGraph

structure Summary where
  components : Nat
  vulnerabilities : Nat
  /-- For each type that occurs, the number of its components. -/
  byType : List (String × Nat)
  deriving Repr, DecidableEq

namespace Graph

variable {n : Nat}

/-- The types of components, as far as they have one. -/
def typesOf (cs : List Component) : List String :=
  cs.filterMap fun c => c.type.filter (· ≠ "")

/-- The components below a root, each once, as they are counted.  What waits
is on a stack on which children are put in order, so that the last child of a
component comes before the others. -/
def counted (g : Graph n) (root : Fin n) : List (Fin n) :=
  let lastFirst (i : Fin n) : List (Fin n) := (g.children i).reverse
  Stop.firsts (Walk.stops id lastFirst (List.finRange n) [] [root])

/-- The counts of the components below a root; types are listed as they are
met. -/
def summary (g : Graph n) (root : Fin n) : Summary :=
  let cs := (g.counted root).map g.component
  let types := typesOf cs
  { components := cs.length
    vulnerabilities := (cs.flatMap Component.vulnerabilityList).length
    byType := types.eraseDups.map fun type => (type, types.count type) }

end Graph

namespace Summary

def words (s : Summary) : String :=
  toString s.components ++ (if s.components = 1 then " component, " else " components, ")
    ++ Component.vulnerabilityWords s.vulnerabilities

/-- The closing line: a warning where there are vulnerabilities. -/
def line (colour : Bool) (s : Summary) : String :=
  if s.vulnerabilities > 0 then Style.yellow.paint colour s.words
  else Style.green.paint colour ("✓ " ++ s.words)

end Summary

/-- The tree, an empty line, and the counts. -/
def Graph.overview {n : Nat} (colour : Bool) (g : Graph n) (root : Fin n) : List String :=
  g.tree colour root ++ ["", (g.summary root).line colour]

end ComponentGraph
