/-
  ComponentGraph.Graph.Basic
  ────────────────────────────────
  **GRAPHS OF COMPONENTS.**

  A graph of `n` components numbers them from 0 to `n - 1`; each has an
  ordered list of children, given by number.  Children may be shared, listed
  twice, and lie on cycles; a number outside the graph cannot occur.

      Graph    — components with their children
      Forest   — a graph with some of its components marked as roots
      Rooted   — a graph with one root
-/
import ComponentGraph.Component

namespace ComponentGraph

/-! ## §1. Graphs. -/

/-- A component with its children among `n` components. -/
structure Node (n : Nat) where
  component : Component
  children : List (Fin n)
  deriving Repr, DecidableEq

def Node.map {m n : Nat} (f : Fin m → Fin n) (node : Node m) : Node n :=
  ⟨node.component, node.children.map f⟩

structure Graph (n : Nat) where
  nodes : Vector (Node n) n
  deriving Repr, DecidableEq

namespace Graph

variable {n : Nat}

def component (g : Graph n) (i : Fin n) : Component := g.nodes[i].component

def children (g : Graph n) (i : Fin n) : List (Fin n) := g.nodes[i].children

def modify (g : Graph n) (i : Fin n) (f : Node n → Node n) : Graph n :=
  ⟨g.nodes.set i (f g.nodes[i])⟩

/-- Change one component and leave its children. -/
def update (g : Graph n) (i : Fin n) (f : Component → Component) : Graph n :=
  g.modify i fun node => ⟨f node.component, node.children⟩

def empty : Graph 0 := ⟨#v[]⟩

/-- Two graphs side by side. -/
def append {m : Nat} (g : Graph n) (h : Graph m) : Graph (n + m) :=
  ⟨g.nodes.map (·.map (Fin.castAdd m)) ++ h.nodes.map (·.map (Fin.natAdd n))⟩

/-- A component above a graph: it is number 0, with these children. -/
def above (c : Component) (g : Graph n) (below : List (Fin n)) : Graph (1 + n) :=
  let top : Node (1 + n) := ⟨c, below.map (Fin.natAdd 1)⟩
  ⟨#v[top] ++ g.nodes.map (·.map (Fin.natAdd 1))⟩

/-- The number of a component above a graph. -/
def aboveRoot (n : Nat) : Fin (1 + n) := ⟨0, by omega⟩

end Graph

/-! ## §2. Forests. -/

/-- A graph with an ordered list of roots. -/
structure Forest where
  size : Nat
  graph : Graph size
  roots : List (Fin size)
  deriving Repr

namespace Forest

def empty : Forest := ⟨0, Graph.empty, []⟩

def append (a b : Forest) : Forest where
  size := a.size + b.size
  graph := a.graph.append b.graph
  roots := a.roots.map (Fin.castAdd b.size) ++ b.roots.map (Fin.natAdd a.size)

end Forest

/-! ## §3. Rooted graphs. -/

structure Rooted where
  size : Nat
  graph : Graph size
  root : Fin size
  deriving Repr

namespace Rooted

/-- The graph as a forest with one root. -/
def toForest (r : Rooted) : Forest := ⟨r.size, r.graph, [r.root]⟩

/-- A component above a forest: the forest's roots become its children. -/
def above (c : Component) (f : Forest) : Rooted where
  size := 1 + f.size
  graph := f.graph.above c f.roots
  root := Graph.aboveRoot f.size

end Rooted

end ComponentGraph
