/-
  ComponentGraph.Proofs.Graph.Reach
  ────────────────────────────────
  **WHAT CAN BE REACHED IN A GRAPH.**

  A component can be reached from some components if it is one of them or a
  child of one that can be reached.  A walk enters exactly these, each once, in
  whatever order it takes children (`mem_entered_iff`, `nodup_entered`); so
  does the walk over the graph itself (`mem_reached_iff`, `nodup_reached`).
-/
import ComponentGraph.Graph.Reach
import ComponentGraph.Proofs.Graph.Walk

namespace ComponentGraph

namespace Graph

variable {n : Nat}

/-- Can a component be reached from these? -/
inductive Reaches (g : Graph n) (start : List (Fin n)) : Fin n → Prop where
  | start {i : Fin n} : i ∈ start → Reaches g start i
  | child {i j : Fin n} : Reaches g start i → j ∈ g.children i → Reaches g start j

/-- What holds of the start, and is kept going down, holds of all that can be
reached. -/
theorem Reaches.closed {g : Graph n} {start : List (Fin n)} {P : Fin n → Prop}
    (hstart : ∀ i ∈ start, P i) (hdown : ∀ i, P i → ∀ j ∈ g.children i, P j) {i : Fin n}
    (h : g.Reaches start i) : P i := by
  induction h with
  | start hi => exact hstart _ hi
  | child _ hj ih => exact hdown _ ih _ hj

/-- What is reached from what can be reached can be reached. -/
theorem Reaches.trans {g : Graph n} {start more : List (Fin n)} {i : Fin n}
    (h : g.Reaches start i) (hstart : ∀ j ∈ start, g.Reaches more j) : g.Reaches more i :=
  h.closed hstart fun _ hj _ hk => .child hj hk

section Walk

variable (g : Graph n) (start : List (Fin n))

/-- A walk over a graph meets a component again. -/
theorem stops_again {seen waiting : List (Fin n)} {i : Fin n} (h : i ∈ seen) :
    Walk.stops id g.children (List.finRange n) seen (i :: waiting)
      = .again i :: Walk.stops id g.children (List.finRange n) seen waiting :=
  Walk.stops_cons_again h

/-- A walk over a graph meets a component for the first time. -/
theorem stops_first {seen waiting : List (Fin n)} {i : Fin n} (h : i ∉ seen) :
    Walk.stops id g.children (List.finRange n) seen (i :: waiting)
      = .first i :: Walk.stops id g.children (List.finRange n) (i :: seen)
        (g.children i ++ waiting) :=
  Walk.stops_cons_first h (List.mem_finRange i)

section Rows

variable {below : Fin n → List (Fin n)}

/-- No component is entered twice, in whatever order children are taken. -/
theorem nodup_entered :
    (Stop.firsts (Walk.stops id below (List.finRange n) [] start)).Nodup := by
  have h := Walk.nodup_firsts id below (List.finRange n) [] start
  rwa [List.map_id] at h

/-- **A walk enters what can be reached**, in whatever order it takes children. -/
theorem mem_entered_iff (hbelow : ∀ i j, j ∈ below i ↔ j ∈ g.children i) {i : Fin n} :
    i ∈ Stop.firsts (Walk.stops id below (List.finRange n) [] start) ↔ g.Reaches start i := by
  constructor
  · -- every stop is at a place that can be reached
    intro h
    exact Walk.place_stops id below (List.finRange n) [] start
      (fun p hp q hq => .child hp ((hbelow p q).1 hq)) (fun _ hp => .start hp) _
      (Stop.mem_firsts.1 h)
  · -- what is entered contains the start and is closed under children
    intro h
    refine h.closed (fun j hj => ?_) fun j hj k hk => ?_
    · simpa using Walk.waiting_met id below (List.finRange n) [] start j hj (List.mem_finRange j)
    · simpa using Walk.below_met id below (List.finRange n) [] start j hj k ((hbelow j k).2 hk)
        (List.mem_finRange k)

end Rows

/-- No component is reached twice. -/
theorem nodup_reached : (g.reached start).Nodup := nodup_entered start

/-- **The walk over a graph enters what can be reached.** -/
theorem mem_reached_iff {i : Fin n} : i ∈ g.reached start ↔ g.Reaches start i :=
  g.mem_entered_iff start fun _ _ => Iff.rfl

instance (start : List (Fin n)) : DecidablePred (g.Reaches start) :=
  fun _ => decidable_of_iff _ (g.mem_reached_iff start)

end Walk

end Graph

end ComponentGraph
