/-
  ComponentGraph.Proofs.View.Rendering
  ────────────────────────────────
  **THE TREE IS A RECURSIVE RENDERING.**

  The tree is made by a loop over places that wait: whether a place is printed
  in full is decided only when its turn comes.  The same lines can be said by
  recursion, with the set of components printed so far handed on from each
  subtree to the next one:

      Spot             — a component on the way down from the root
      Graph.Renders    — the recursive rendering of spots, as a relation
      tree_iff_renders — the tree, and nothing else, is the rendering of the
                         root
-/
import ComponentGraph.Proofs.Graph.Places
import ComponentGraph.View.Tree

namespace ComponentGraph

/-! ## §1. Spots. -/

/-- A component as it is met on the way down from the root.  A component ends its
row if it is at the last position among the children of its parent. -/
structure Spot (n : Nat) where
  node : Fin n
  /-- The ancestors below the root, outermost first: does each end its row? -/
  ancestors : List Bool
  /-- Does the component end its row?  The root stands in none. -/
  ends : Option Bool
  deriving Repr, DecidableEq

namespace Spot

variable {n : Nat}

def top (root : Fin n) : Spot n := ⟨root, [], none⟩

/-- The children of a component, in order. -/
def below (g : Graph n) (s : Spot n) : List (Spot n) :=
  (g.children s.node).mapIdx fun k i =>
    ⟨i, s.ancestors ++ s.ends.toList, some (k + 1 = (g.children s.node).length)⟩

/-- What an ancestor puts before all that is below it. -/
def bar (ends : Bool) : String := if ends then "    " else "│   "

/-- What stands before the connector: the bars of all ancestors. -/
def bars (s : Spot n) : String := String.join (s.ancestors.map bar)

def connector (s : Spot n) : String :=
  match s.ends with
  | none => ""
  | some ends => if ends then "└── " else "├── "

end Spot

/-! ## §2. The recursive rendering. -/

namespace Graph

variable {n : Nat} (g : Graph n) (colour : Bool)

/-- What stands on the line of a spot, in full or not. -/
def heading (s : Spot n) : String :=
  s.bars ++ s.connector ++ (g.component s.node).label ++ (g.component s.node).typeLabel colour

/-- **The recursive rendering.**  When these components have been printed, these
spots are rendered as these lines, one after the other, and then these
components have been printed. -/
inductive Renders : List (Fin n) → List (Spot n) → List String → List (Fin n) → Prop where
  | nil {printed : List (Fin n)} : Renders printed [] [] printed
  /-- A later visit writes one line. -/
  | again {printed after : List (Fin n)} {s : Spot n} {rest : List (Spot n)}
      {lines : List String} (hs : s.node ∈ printed) (hrest : Renders printed rest lines after) :
      Renders printed (s :: rest)
        ((g.heading colour s ++ " " ++ Style.dim.paint colour "(see above)") :: lines) after
  /-- A first visit writes a line, then renders the children, in order. -/
  | first {printed between after : List (Fin n)} {s : Spot n} {rest : List (Spot n)}
      {inner lines : List String} (hs : s.node ∉ printed)
      (hbelow : Renders (s.node :: printed) (s.below g) inner between)
      (hrest : Renders between rest lines after) :
      Renders printed (s :: rest)
        ((g.heading colour s ++ (g.component s.node).vulnerabilityLabel colour)
          :: (inner ++ lines)) after

variable {g colour} {printed after other : List (Fin n)} {lines lines' : List String}

/-- **There is one rendering only.** -/
theorem Renders.unique {spots : List (Spot n)} (h : g.Renders colour printed spots lines after)
    (h' : g.Renders colour printed spots lines' other) : lines = lines' ∧ after = other := by
  induction h generalizing lines' other with
  | nil =>
    cases h'
    exact ⟨rfl, rfl⟩
  | again hs _ ih =>
    cases h' with
    | again _ hrest =>
      obtain ⟨rfl, rfl⟩ := ih hrest
      exact ⟨rfl, rfl⟩
    | first hs' _ _ => exact absurd hs hs'
  | first hs _ _ ihbelow ih =>
    cases h' with
    | again hs' _ => exact absurd hs' hs
    | first _ hbelow hrest =>
      obtain ⟨rfl, rfl⟩ := ihbelow hbelow
      obtain ⟨rfl, rfl⟩ := ih hrest
      exact ⟨rfl, rfl⟩

/-- What is rendered of a row is rendered of its beginning, and then of the rest. -/
theorem Renders.split {row rest : List (Spot n)}
    (h : g.Renders colour printed (row ++ rest) lines after) :
    ∃ inner between outer, g.Renders colour printed row inner between
      ∧ g.Renders colour between rest outer after ∧ lines = inner ++ outer := by
  induction row generalizing printed lines with
  | nil => exact ⟨[], printed, lines, .nil, h, rfl⟩
  | cons s row ih =>
    cases h with
    | again hs h =>
      obtain ⟨inner, between, outer, hrow, hrest, rfl⟩ := ih h
      exact ⟨_, between, outer, .again hs hrow, hrest, rfl⟩
    | first hs hbelow h =>
      obtain ⟨inner, between, outer, hrow, hrest, rfl⟩ := ih h
      exact ⟨_, between, outer, .first hs hbelow hrow, hrest, by simp⟩

end Graph

/-! ## §3. Spots and branches. -/

namespace Spot

variable {n : Nat}

/-- What the component adds to the bars of its children. -/
def trail (s : Spot n) : String := String.join (s.ends.toList.map bar)

/-- The branch of the tree at a spot. -/
def branch (s : Spot n) : Branch n := ⟨s.node, s.bars, s.connector, s.trail⟩

/-- A row of branches, by positions. -/
theorem row_eq_mapIdx (ancestors : List Bool) (row : List (Fin n)) :
    Branch.row (String.join (ancestors.map bar)) row
      = row.mapIdx fun k i => branch ⟨i, ancestors, some (k + 1 = row.length)⟩ := by
  induction row with
  | nil => rfl
  | cons i row ih =>
    cases row with
    | nil => rfl
    | cons j row =>
      rw [Branch.row, ih, List.mapIdx_cons]
      · simp [branch, bars, connector, trail, bar, eq_comm (a := 0)]
      · simp

theorem map_branch_below (g : Graph n) (s : Spot n) :
    (s.below g).map branch = s.branch.below g := by
  have hbars : s.bars ++ s.trail = String.join ((s.ancestors ++ s.ends.toList).map bar) := by
    simp [bars, trail]
  show _ = Branch.row (s.bars ++ s.trail) (g.children s.node)
  rw [hbars, row_eq_mapIdx, below, List.mapIdx_eq_zipIdx_map, List.mapIdx_eq_zipIdx_map,
    List.map_map]
  rfl

theorem map_node_below (g : Graph n) (s : Spot n) : (s.below g).map node = g.children s.node := by
  rw [below, List.mapIdx_eq_zipIdx_map, List.map_map]
  exact List.zipIdx_map_fst 0 _

end Spot

/-! ## §4. The tree. -/

namespace Graph

variable {n : Nat} (g : Graph n) (colour : Bool)

/-- The stops of a walk over spots. -/
def spotStops (printed : List (Fin n)) (waiting : List (Spot n)) : List (Stop (Spot n)) :=
  Walk.stops Spot.node (Spot.below g) (List.finRange n) printed waiting

/-- The line of a stop. -/
def spotLine (s : Stop (Spot n)) : String := treeLine colour g (s.map Spot.branch)

/-- **What the loop prints is a recursive rendering of what was waiting.** -/
theorem exists_renders (printed : List (Fin n)) (waiting : List (Spot n)) :
    ∃ after, g.Renders colour printed waiting
      ((g.spotStops printed waiting).map (g.spotLine colour)) after := by
  unfold spotStops
  fun_induction Walk.stops Spot.node (Spot.below g) (List.finRange n) printed waiting with
  | case1 printed => exact ⟨printed, .nil⟩
  | case2 printed s waiting hs ih =>
    obtain ⟨after, h⟩ := ih
    exact ⟨after, .again hs h⟩
  | case3 printed s waiting hs hk ih =>
    -- the loop puts the children before all that was waiting
    obtain ⟨after, h⟩ := ih
    obtain ⟨inner, between, outer, hbelow, hrest, hlines⟩ := h.split
    rw [List.map_cons, hlines]
    exact ⟨after, .first hs hbelow hrest⟩
  | case4 printed s waiting hs hk ih => exact absurd (List.mem_finRange s.node) hk

theorem map_spotLine (root : Fin n) :
    (g.spotStops [] [.top root]).map (g.spotLine colour) = g.tree colour root := by
  have h : (g.spotStops [] [.top root]).map (Stop.map Spot.branch) = g.treeStops root :=
    Walk.map_stops _ _ _ _ _ Spot.branch (fun _ => rfl) (Spot.map_branch_below g)
  rw [tree, ← h, List.map_map]
  rfl

/-- **The tree, and nothing else, is the recursive rendering of the root**, on
every graph.  The loop writes one line at each turn, and ends after one turn
for the root and one for each child of each component that can be reached. -/
theorem tree_iff_renders (root : Fin n) :
    (∀ lines, (∃ after, g.Renders colour [] [.top root] lines after) ↔ lines = g.tree colour root)
      ∧ (g.tree colour root).length
        = 1 + ∑ i with g.Reaches [root] i, (g.children i).length := by
  obtain ⟨after, htree⟩ := g.exists_renders colour [] [.top root]
  rw [map_spotLine] at htree
  refine ⟨fun lines => ⟨?_, ?_⟩, ?_⟩
  · rintro ⟨other, h⟩
    exact (h.unique htree).1
  · rintro rfl
    exact ⟨after, htree⟩
  · have hstops : (g.spotStops [] [.top root]).map (Stop.map Spot.node) = g.stops [root] :=
      Walk.map_stops _ _ _ _ _ Spot.node (fun _ => rfl) (Spot.map_node_below g)
    rw [← map_spotLine, List.length_map, ← length_places,
      ← List.length_map (Stop.map Spot.node), hstops, ← map_places, List.length_map]

end Graph

end ComponentGraph
