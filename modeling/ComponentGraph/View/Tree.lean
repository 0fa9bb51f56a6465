/-
  ComponentGraph.View.Tree
  ────────────────────────────────
  **THE GRAPH AS AN INDENTED TREE.**

  One line for every stop of a depth-first walk from the root:

      alpine:3.15 (container)
      ├── alpine 3.15 (operating-system)
      │   └── musl 1.2.2-r7 [1 vulnerability]
      └── app (application)
          └── musl 1.2.2-r7 (see above)

  A component that was printed already has neither its subtree nor its
  vulnerabilities again, which also ends every cycle.
-/
import ComponentGraph.Graph.Reach
import ComponentGraph.View.Style

namespace ComponentGraph

/-! ## §1. Places in the tree. -/

/-- A place in the tree: a component, what stands before it on its line, and
what stands before the lines of its children. -/
structure Branch (n : Nat) where
  node : Fin n
  /-- The bars of the ancestors. -/
  bars : String
  /-- The joint at the component itself. -/
  joint : String
  /-- What the component adds to the bars of its children. -/
  trail : String
  deriving Repr

def Branch.top {n : Nat} (root : Fin n) : Branch n := ⟨root, "", "", ""⟩

/-- The places below bars; the last one ends the line that comes from above. -/
def Branch.row {n : Nat} (bars : String) : List (Fin n) → List (Branch n)
  | [] => []
  | [i] => [⟨i, bars, "└── ", "    "⟩]
  | i :: rest => ⟨i, bars, "├── ", "│   "⟩ :: row bars rest

def Branch.below {n : Nat} (g : Graph n) (b : Branch n) : List (Branch n) :=
  Branch.row (b.bars ++ b.trail) (g.children b.node)

/-! ## §2. Labels. -/

namespace Component

/-- Group, name and version, as far as there are any. -/
def label (c : Component) : String :=
  let name : Field :=
    if c.group.isFilled then .ofText (c.group.inText ++ "/" ++ c.name.inText) else c.name
  if c.version.isFilled then name.inText ++ " " ++ c.version.inText else name.inText

def typeStyle (type : String) : Style :=
  if type = ComponentType.container.name then .magenta
  else if type = ComponentType.operatingSystem.name then .blue
  else if type = ComponentType.application.name then .cyan
  else .dim

/-- The type behind the label; libraries go without. -/
def typeLabel (colour : Bool) (c : Component) : String :=
  match c.type with
  | none => ""
  | some type =>
    if type = "" ∨ type = ComponentType.library.name then ""
    else " " ++ (typeStyle type).paint colour ("(" ++ type ++ ")")

def vulnerabilityWords (count : Nat) : String :=
  toString count ++ (if count = 1 then " vulnerability" else " vulnerabilities")

/-- The number of vulnerabilities behind the label, if there are any. -/
def vulnerabilityLabel (colour : Bool) (c : Component) : String :=
  if c.vulnerabilityCount = 0 then ""
  else " " ++ Style.red.paint colour ("[" ++ vulnerabilityWords c.vulnerabilityCount ++ "]")

end Component

/-! ## §3. Lines. -/

def treeLine {n : Nat} (colour : Bool) (g : Graph n) : Stop (Branch n) → String
  | .first b =>
    let c := g.component b.node
    b.bars ++ b.joint ++ c.label ++ c.typeLabel colour ++ c.vulnerabilityLabel colour
  | .again b =>
    let c := g.component b.node
    b.bars ++ b.joint ++ c.label ++ c.typeLabel colour ++ " "
      ++ Style.dim.paint colour "(see above)"

namespace Graph

def treeStops {n : Nat} (g : Graph n) (root : Fin n) : List (Stop (Branch n)) :=
  Walk.stops Branch.node (Branch.below g) (List.finRange n) [] [Branch.top root]

def tree {n : Nat} (colour : Bool) (g : Graph n) (root : Fin n) : List String :=
  (g.treeStops root).map (treeLine colour g)

end Graph

end ComponentGraph
