/-
  ComponentGraph.Graph.Reach
  ────────────────────────────────
  **WHAT A FOREST HOLDS, IN ORDER OF FIRST VISIT.**

  A depth-first walk over the roots in order numbers the components that can
  be reached; the listing gives each of them with its children under the new
  numbers.  Components that share children or lie on cycles show as such.
-/
import ComponentGraph.Graph.Basic
import ComponentGraph.Graph.Walk

namespace ComponentGraph

namespace Graph

variable {n : Nat}

/-- The stops of a walk over the graph itself. -/
def stops (g : Graph n) (start : List (Fin n)) : List (Stop (Fin n)) :=
  Walk.stops id g.children (List.finRange n) [] start

/-- The components that can be reached, each once, in order of first visit. -/
def reached (g : Graph n) (start : List (Fin n)) : List (Fin n) := Stop.firsts (g.stops start)

end Graph

/-- A forest's components in order of first visit. -/
structure Listing where
  roots : List Nat
  nodes : List (Component × List Nat)
  deriving Repr

def Forest.listing (f : Forest) : Listing :=
  let order := f.graph.reached f.roots
  let number (i : Fin f.size) : Nat := order.idxOf i
  { roots := f.roots.map number
    nodes := order.map fun i => (f.graph.component i, (f.graph.children i).map number) }

end ComponentGraph
