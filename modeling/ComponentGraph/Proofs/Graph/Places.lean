/-
  ComponentGraph.Proofs.Graph.Places
  ────────────────────────────────
  **WALKS THAT KNOW THEIR DEPTH.**

  A place is a component met at some depth below the root.  The walk over
  places makes the stops of the plain walk, each with its depth
  (`map_places`); it has one stop for the root, and one for each child of
  each component that can be reached (`length_places`).
-/
import ComponentGraph.Proofs.Graph.Reach
import Mathlib.Algebra.BigOperators.Group.Finset.Basic
import Mathlib.Data.Fintype.Basic

namespace ComponentGraph

/-- A component that is met at this depth below the root. -/
structure Place (n : Nat) where
  depth : Nat
  node : Fin n
  deriving Repr, DecidableEq

namespace Place

variable {n : Nat}

def top (root : Fin n) : Place n := ⟨0, root⟩

/-- The children of a component stand one step deeper. -/
def below (g : Graph n) (p : Place n) : List (Place n) :=
  (g.children p.node).map fun i => ⟨p.depth + 1, i⟩

theorem map_node_below (g : Graph n) (p : Place n) :
    (p.below g).map node = g.children p.node := by
  rw [below, List.map_map]
  exact List.map_id _

end Place

namespace Graph

variable {n : Nat} (g : Graph n)

/-- The stops of a walk over places. -/
def placeStops (seen : List (Fin n)) (waiting : List (Place n)) : List (Stop (Place n)) :=
  Walk.stops Place.node (Place.below g) (List.finRange n) seen waiting

/-- All places below a root, in the order of the walk. -/
def places (root : Fin n) : List (Stop (Place n)) := g.placeStops [] [.top root]

theorem map_placeStops (seen : List (Fin n)) (waiting : List (Place n)) :
    (g.placeStops seen waiting).map (Stop.map Place.node)
      = Walk.stops id g.children (List.finRange n) seen (waiting.map Place.node) :=
  Walk.map_stops _ _ _ _ _ Place.node (fun _ => rfl) (Place.map_node_below g)

/-- **Without their depths the places are the stops of the plain walk.** -/
theorem map_places (root : Fin n) :
    (g.places root).map (Stop.map Place.node) = g.stops [root] :=
  g.map_placeStops [] [.top root]

/-- What is added up along the walk is added up over all that can be reached. -/
theorem sum_map_reached (start : List (Fin n)) (f : Fin n → ℕ) :
    ((g.reached start).map f).sum = ∑ i with g.Reaches start i, f i := by
  rw [← List.sum_toFinset f (g.nodup_reached start)]
  apply Finset.sum_congr _ fun _ _ => rfl
  ext i
  rw [List.mem_toFinset, mem_reached_iff, Finset.mem_filter]
  exact ⟨fun h => ⟨Finset.mem_univ i, h⟩, fun h => h.2⟩

/-- **There is one place for the root, and one for each child of each component
that can be reached.** -/
theorem length_places (root : Fin n) :
    (g.places root).length = 1 + ∑ i with g.Reaches [root] i, (g.children i).length := by
  have h := Walk.length_stops id g.children (List.finRange n) [] [root] fun i => List.mem_finRange i
  rw [← List.length_map (Stop.map Place.node), map_places, ← sum_map_reached]
  exact h

end Graph

end ComponentGraph
