/-
  ComponentGraph.Proofs.View.Document
  ────────────────────────────────
  **A DOCUMENT LOSES NOTHING OF ITS GRAPH.**

  Every component that can be reached is written in full once, under a
  reference of its own, above its children in their order; all else is the
  mention of one that was written before.

      ShownBy         — what it is for a document to show a graph
      spells_nest     — the entries of a walk are read as its stops
      document_shows  — the document of a graph shows it
-/
import ComponentGraph.Proofs.Graph.Places
import ComponentGraph.Proofs.View.Pen

namespace ComponentGraph

/-! ## §1. The entries of a walk. -/

namespace Graph

variable {n : Nat} (g : Graph n) (w : Fin n → Written)

/-- The object that a stop is read as. -/
def item : Stop (Fin n) → Item
  | .first i => .full (w i).ref (w i).shown ((g.children i).map fun j => (w j).ref)
  | .again i => .mention (w i).ref

/-- The object that a place is read as, with its depth. -/
def placedItem (s : Stop (Place n)) : Nat × Item :=
  (s.place.depth, g.item w (s.map Place.node))

/-- **The entries that a walk's marks spell stand for what was waiting, and
are read as the stops**, each at its depth. -/
theorem spells_nest {P : Fin n → Prop} (hdown : ∀ i, P i → ∀ j ∈ g.children i, P j)
    (hsome : ∀ i, P i → (w i).ref.isSome) (seen : List (Fin n)) (waiting : List (Place n))
    (hwait : ∀ p ∈ waiting, P p.node) :
    Entry.Spells
      (Mark.nest ((g.placeStops seen waiting).map fun s => g.mark w (s.map Place.node)))
      (waiting.map fun p => (p.depth, (w p.node).ref))
      ((g.placeStops seen waiting).map (g.placedItem w)) := by
  -- along the walk: each stop puts its entry before those that follow it
  unfold placeStops
  fun_induction Walk.stops Place.node (Place.below g) (List.finRange n) seen waiting with
  | case1 seen => exact .nil
  | case2 seen p waiting hs ih =>
    have hp := hwait p List.mem_cons_self
    exact (ih fun q hq => hwait q (List.mem_cons_of_mem _ hq)).ref p.depth (hsome p.node hp)
  | case3 seen p waiting hs hk ih =>
    have hp := hwait p List.mem_cons_self
    have h := ih fun q hq => by
      rcases List.mem_append.1 hq with hq | hq
      · obtain ⟨j, hj, rfl⟩ := List.mem_map.1 hq
        exact hdown p.node hp j hj
      · exact hwait q (List.mem_cons_of_mem _ hq)
    -- what follows begins with the entries of the children
    have hrow : (p.below g).map (fun q => (q.depth, (w q.node).ref))
        = ((g.children p.node).map fun j => (w j).ref).map (p.depth + 1, ·) := by
      rw [Place.below, List.map_map, List.map_map]
      rfl
    rw [List.map_append, hrow] at h
    have hb : ∀ r ∈ (g.children p.node).map fun j => (w j).ref, r.isSome := by
      intro r hr
      obtain ⟨j, hj, rfl⟩ := List.mem_map.1 hr
      exact hsome j (hdown p.node hp j hj)
    have h := h.full hb (w p.node)
    rw [List.length_map] at h
    exact h
  | case4 seen p waiting hs hk ih => exact absurd (List.mem_finRange p.node) hk

/-- Without their depths, places are read as the stops of the plain walk. -/
theorem map_placedItem (root : Fin n) :
    ((g.places root).map (g.placedItem w)).map (·.2) = (g.stops [root]).map (g.item w) := by
  rw [← map_places, List.map_map, List.map_map]
  rfl

/-! ## §2. The document of a graph. -/

/-- **A document shows a graph.**  Components are written in full in this
order, under these references. -/
structure ShownBy (g : Graph n) (root : Fin n) (top : Json) (order : List (Fin n))
    (refAt : Fin n → Field) : Prop where
  /-- No component is written in full twice. -/
  once : order.Nodup
  /-- Those that are written are those that can be reached. -/
  mem_order_iff : ∀ i, i ∈ order ↔ g.Reaches [root] i
  /-- References show. -/
  filled : ∀ i ∈ order, (refAt i).isFilled
  /-- No two components have one reference. -/
  distinct : (order.map refAt).Nodup
  /-- The root stands at the top. -/
  top_reference : top.reference = refAt root
  /-- A component shows as it is, above its children, in order. -/
  full : top.objects.filter Item.isFull
    = order.map fun i => .full (refAt i) (g.component i).shown ((g.children i).map refAt)
  /-- What is mentioned was written in full before. -/
  mentioned : ∀ before r after, top.objects = before ++ .mention r :: after →
    r ∈ before.filterMap Item.own?
  /-- A component has its package URL as its reference, unless this was taken. -/
  purl_reference : ∀ before i after p s, order = before ++ i :: after →
    (g.component i).purl = some p → p.text? = .ok s → .ofText s ∉ before.map refAt →
    refAt i = .ofText s

theorem filter_items (stops : List (Stop (Fin n))) :
    (stops.map (g.item w)).filter Item.isFull
      = (Stop.firsts stops).map fun i => g.item w (.first i) := by
  induction stops with
  | nil => rfl
  | cons s stops ih =>
    cases s with
    | first i =>
      rw [List.map_cons, List.filter_cons_of_pos rfl, ih]
      rfl
    | again i =>
      rw [List.map_cons, List.filter_cons_of_neg (by simp [item, Item.isFull]), ih]
      rfl

theorem own_items (stops : List (Stop (Fin n))) :
    (stops.map (g.item w)).filterMap Item.own?
      = (Stop.firsts stops).map fun i => (w i).ref := by
  induction stops with
  | nil => rfl
  | cons s stops ih =>
    cases s with
    | first i =>
      have h : (g.item w (.first i)).own? = some (w i).ref := rfl
      rw [List.map_cons, List.filterMap_cons_some h, ih]
      rfl
    | again i =>
      have h : (g.item w (.again i)).own? = none := rfl
      rw [List.map_cons, List.filterMap_cons_none h, ih]
      rfl

/-- What a walk meets again was written in full before. -/
theorem mention_own {start : List (Fin n)} {before after : List Item} {r : Field}
    (h : (g.stops start).map (g.item w) = before ++ .mention r :: after) :
    r ∈ before.filterMap Item.own? := by
  obtain ⟨stops₁, stops₂, hstops, rfl, htail⟩ := List.map_eq_append_iff.1 h
  obtain ⟨s, rest, rfl, hs, -⟩ := List.map_eq_cons_iff.1 htail
  cases s with
  | first i =>
    -- a component in full is no mention
    exact absurd hs (by simp [item])
  | again i =>
    obtain rfl : (w i).ref = r := Item.mention.inj hs
    rw [own_items]
    rcases Walk.again_met id g.children (List.finRange n) [] start hstops with h | h
    · exact absurd h List.not_mem_nil
    · rw [List.map_id] at h
      exact List.mem_map_of_mem (f := fun j => (w j).ref) h

variable {root : Fin n}

/-- What has been written shows the graph. -/
theorem shownBy_of_objects {g : Graph n} {w : Fin n → Written} {top : Json}
    (hallot : Allotted g w [] (g.reached [root]))
    (hfill : ∀ i, g.Reaches [root] i → (w i).ref.isFilled)
    (htop : top.reference = (w root).ref)
    (hobjects : top.objects = (g.stops [root]).map (g.item w)) :
    g.ShownBy root top (g.reached [root]) fun i => (w i).ref where
  once := g.nodup_reached [root]
  mem_order_iff _ := g.mem_reached_iff [root]
  filled i hi := hfill i ((g.mem_reached_iff [root]).1 hi)
  distinct := hallot.nodup
  top_reference := htop
  full := by
    rw [hobjects, filter_items]
    apply List.map_congr_left
    intro i hi
    show Item.full _ (w i).shown _ = _
    rw [hallot.shown i hi]
  mentioned before r after h := by
    rw [hobjects] at h
    exact g.mention_own w h
  purl_reference before i after p s hsplit hp hs hfree := by
    have htext : (g.component i).purlText = some s := by
      simp [Component.purlText, hp, hs, Except.toOption]
    rw [hsplit] at hallot
    rw [hallot.eq_written, Component.written, htext]
    -- the package URL is the first choice, and nothing had it before
    refine if_pos ⟨Purl.text?_ne_empty hs, ?_⟩
    rw [List.append_nil, List.mem_reverse]
    exact hfree

/-- One entry is spelled, if the walk begins with one root. -/
theorem outline_of_marks {g : Graph n} {w : Fin n → Written}
    (hmarks : (g.marks root).marks = .ok ((g.stops [root]).map (g.mark w)))
    (hsome : ∀ i, g.Reaches [root] i → (w i).ref.isSome) :
    ∃ e, g.entry root = .ok e ∧ e.toJson.reference = (w root).ref
      ∧ e.toJson.outline 0 = (g.places root).map (g.placedItem w) := by
  have hspells := g.spells_nest w (fun _ hi _ hj => Reaches.child hi hj) hsome [] [.top root]
    fun p hp => by
      rw [List.mem_singleton.1 hp]
      exact .start List.mem_cons_self
  have hnest : ((g.placeStops [] [.top root]).map fun s => g.mark w (s.map Place.node))
      = (g.stops [root]).map (g.mark w) := by
    rw [← map_places, List.map_map]
    rfl
  rw [hnest] at hspells
  -- one component was waiting, so there is one entry
  obtain ⟨e, he⟩ : ∃ e, Mark.nest ((g.stops [root]).map (g.mark w)) = [e] := by
    rw [← List.length_eq_one_iff]
    have h := congrArg List.length hspells.references
    rwa [List.length_map, List.length_map] at h
  rw [he] at hspells
  have href : e.reference = (w root).ref := by simpa [Place.top] using hspells.references
  refine ⟨e, g.entry_of_nest root hmarks he, ?_, ?_⟩
  · rw [Entry.reference_toJson, href]
    rw [href]
    exact hsome root (.start List.mem_cons_self)
  · have h := hspells.outline
    rw [List.map_singleton, List.zip_cons_cons, List.zip_nil_right, List.flatMap_singleton] at h
    exact h

/-- The entry's objects are the stops of the walk. -/
theorem entry_of_marks {g : Graph n} {w : Fin n → Written}
    (hmarks : (g.marks root).marks = .ok ((g.stops [root]).map (g.mark w)))
    (hsome : ∀ i, g.Reaches [root] i → (w i).ref.isSome) :
    ∃ e, g.entry root = .ok e ∧ e.toJson.reference = (w root).ref
      ∧ e.toJson.objects = (g.stops [root]).map (g.item w) := by
  obtain ⟨e, hentry, href, houtline⟩ := outline_of_marks hmarks hsome
  refine ⟨e, hentry, href, ?_⟩
  rw [← Json.map_outline 0, houtline, map_placedItem]

/-- **The document of a graph shows it**, if all components that can be reached
have names, and package URLs that can be written. -/
theorem document_shows (g : Graph n) (root : Fin n) (timestamp : String)
    (hname : ∀ i, g.Reaches [root] i → (g.component i).name.isFilled)
    (hpurl : ∀ i, g.Reaches [root] i → ∀ p, (g.component i).purl = some p → ∃ s, p.text? = .ok s) :
    ∃ doc top refAt, g.document root timestamp = .ok doc ∧ doc.get? "component" = some top
      ∧ g.ShownBy root top (g.reached [root]) refAt := by
  have hwrite : ∀ i, g.Reaches [root] i → (g.component i).isWritable :=
    fun i hi => Component.isWritable_iff.2 (hpurl i hi)
  obtain ⟨w, -, hmarks, hallot⟩ := Pen.write_walk (fun _ hi _ hj => .child hi hj) hname hwrite
    (.start g) [root] [] (fun i => (g.component i).written []) (.start g) (by simp)
    fun _ hi => .start hi
  have hallot : Allotted g w [] (g.reached [root]) := hallot
  have hfill : ∀ i, g.Reaches [root] i → (w i).ref.isFilled := by
    intro i hi
    obtain ⟨before, after, hsplit⟩ := List.append_of_mem ((g.mem_reached_iff [root]).2 hi)
    rw [hsplit] at hallot
    rw [hallot.eq_written]
    exact Refs.isFilled_choose (Component.isFilled_nameAtVersion (hname i hi)) _ _
  obtain ⟨e, hentry, href, hobjects⟩ := entry_of_marks hmarks fun i hi => by
    have h := hfill i hi
    cases hr : (w i).ref with
    | none => simp [hr, Field.isFilled] at h
    | some j => rfl
  refine ⟨ComponentGraph.document timestamp e, e.toJson, fun i => (w i).ref, ?_, rfl,
    shownBy_of_objects hallot hfill href hobjects⟩
  rw [Graph.document, hentry]
  rfl

/-- A graph with a shared component, a child that is listed twice, two cycles,
and a name that reads like another component's package URL. -/
def tangled : Graph 4 where
  nodes := #v[
    ⟨{ name := .ofText "app" }, [1, 2, 1]⟩,
    ⟨{ name := .ofText "left_pad", purl := some ⟨"pub", none, "Left_Pad", some "1.0", none, none⟩ },
      [3, 3, 0]⟩,
    ⟨{ name := .ofText "pkg:pub/left_pad@1.0" }, [2, 1]⟩,
    ⟨{ name := .ofText "left_pad", purl := some ⟨"pub", none, "left_pad", some "1.0", none, none⟩ },
      []⟩]

theorem tangled_document_shows :
    ∃ doc top refAt, tangled.document 0 "2024-01-01T00:00:00.000Z" = .ok doc
      ∧ doc.get? "component" = some top
      ∧ tangled.ShownBy 0 top (tangled.reached [0]) refAt := by
  have hname : ∀ i, (tangled.component i).name.isFilled := by decide
  have hwrite : ∀ i, (tangled.component i).isWritable := by decide +kernel
  exact tangled.document_shows 0 "2024-01-01T00:00:00.000Z" (fun i _ => hname i)
    fun i _ => Component.isWritable_iff.1 (hwrite i)

end Graph

end ComponentGraph
