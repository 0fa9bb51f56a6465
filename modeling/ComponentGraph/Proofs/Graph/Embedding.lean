/-
  ComponentGraph.Proofs.Graph.Embedding
  ────────────────────────────────
  **GRAPHS INSIDE GRAPHS.**

  Graphs side by side, and a graph with a component above it, hold the graphs
  they are made of under other numbers (`Embeds`).  From the new numbers of
  some components one reaches the new numbers of what was reached from them,
  and nothing else (`Embeds.reaches_iff`).  So what a forest holds is what its
  parts hold:

      Forest.holds_append — forests side by side
      Forest.holds_above  — a component above a forest

  Forests that are the same but for their numbers are isomorphic.
-/
import ComponentGraph.Proofs.Graph.Reach

namespace ComponentGraph

/-! ## §1. Embeddings. -/

namespace Graph

variable {m n : Nat}

/-- A graph stands in another one under these numbers. -/
structure Embeds (g : Graph m) (h : Graph n) (f : Fin m → Fin n) : Prop where
  component : ∀ i, h.component (f i) = g.component i
  children : ∀ i, h.children (f i) = (g.children i).map f

/-- An embedding is one node by node. -/
theorem Embeds.of_nodes {g : Graph m} {h : Graph n} {f : Fin m → Fin n}
    (hn : ∀ i : Fin m, h.nodes.get (f i) = (g.nodes.get i).map f) : Embeds g h f where
  component i := congrArg Node.component (hn i)
  children i := congrArg Node.children (hn i)

/-- **The new numbers reach what the old numbers reached.** -/
theorem Embeds.reaches_iff {g : Graph m} {h : Graph n} {f : Fin m → Fin n} (he : Embeds g h f)
    (start : List (Fin m)) (j : Fin n) :
    h.Reaches (start.map f) j ↔ ∃ i, g.Reaches start i ∧ f i = j := by
  constructor
  · -- the children of a new number are new numbers
    intro hr
    induction hr with
    | start hj =>
      obtain ⟨i, hi, rfl⟩ := List.mem_map.1 hj
      exact ⟨i, .start hi, rfl⟩
    | child _ hj ih =>
      obtain ⟨i, hi, rfl⟩ := ih
      rw [he.children] at hj
      obtain ⟨k, hk, rfl⟩ := List.mem_map.1 hj
      exact ⟨k, .child hi hk, rfl⟩
  · rintro ⟨i, hr, rfl⟩
    induction hr with
    | start hi => exact .start (List.mem_map_of_mem hi)
    | child _ hk ih =>
      refine .child ih ?_
      rw [he.children]
      exact List.mem_map_of_mem hk

/-- What two lists reach is what one or the other reaches. -/
theorem reaches_append_iff (g : Graph n) (start more : List (Fin n)) (i : Fin n) :
    g.Reaches (start ++ more) i ↔ g.Reaches start i ∨ g.Reaches more i := by
  constructor
  · intro h
    induction h with
    | start hj =>
      rcases List.mem_append.1 hj with hj | hj
      · exact .inl (.start hj)
      · exact .inr (.start hj)
    | child _ hk ih =>
      rcases ih with hj | hj
      · exact .inl (.child hj hk)
      · exact .inr (.child hj hk)
  · rintro (h | h)
    · exact h.trans fun j hj => .start (List.mem_append_left _ hj)
    · exact h.trans fun j hj => .start (List.mem_append_right _ hj)

/-- What a component reaches is itself, and what its children reach. -/
theorem reaches_singleton_iff (g : Graph n) (i j : Fin n) :
    g.Reaches [i] j ↔ j = i ∨ g.Reaches (g.children i) j := by
  constructor
  · intro h
    induction h with
    | start hj => exact .inl (List.mem_singleton.1 hj)
    | child _ hk ih =>
      rcases ih with rfl | hj
      · exact .inr (.start hk)
      · exact .inr (.child hj hk)
  · rintro (rfl | h)
    · exact .start List.mem_cons_self
    · exact h.trans fun k hk => .child (.start List.mem_cons_self) hk

/-- The first of two graphs side by side keeps its numbers. -/
theorem embeds_append_left (g : Graph m) (h : Graph n) :
    Embeds g (g.append h) (Fin.castAdd n) := by
  apply Embeds.of_nodes
  intro i
  have hi := i.isLt
  -- the list of nodes is two lists, and the number says which of them
  show (_ ++ _ : Vector (Node (m + n)) (m + n))[i.val] = _
  rw [Vector.getElem_append_left i.isLt, Vector.getElem_map]
  rfl

/-- The second comes behind the first. -/
theorem embeds_append_right (g : Graph m) (h : Graph n) :
    Embeds h (g.append h) (Fin.natAdd m) := by
  apply Embeds.of_nodes
  intro i
  have hi := i.isLt
  show (_ ++ _ : Vector (Node (m + n)) (m + n))[m + i.val] = _
  rw [Vector.getElem_append_right (by omega) (by omega), Vector.getElem_map]
  simp only [Nat.add_sub_cancel_left]
  rfl

/-- What is below a component keeps its order. -/
theorem embeds_above (c : Component) (g : Graph n) (below : List (Fin n)) :
    Embeds g (g.above c below) (Fin.natAdd 1) := by
  apply Embeds.of_nodes
  intro i
  have hi := i.isLt
  show (_ ++ _ : Vector (Node (1 + n)) (1 + n))[1 + i.val] = _
  rw [Vector.getElem_append_right (by omega) (by omega), Vector.getElem_map]
  simp only [Nat.add_sub_cancel_left]
  rfl

theorem node_aboveRoot (c : Component) (g : Graph n) (below : List (Fin n)) :
    (g.above c below).nodes.get (aboveRoot n) = ⟨c, below.map (Fin.natAdd 1)⟩ := by
  have hz : 0 < 1 + n := by omega
  show (_ ++ _ : Vector (Node (1 + n)) (1 + n))[0] = _
  rw [Vector.getElem_append_left (by omega)]
  rfl

theorem component_aboveRoot (c : Component) (g : Graph n) (below : List (Fin n)) :
    (g.above c below).component (aboveRoot n) = c :=
  congrArg Node.component (node_aboveRoot c g below)

theorem children_aboveRoot (c : Component) (g : Graph n) (below : List (Fin n)) :
    (g.above c below).children (aboveRoot n) = below.map (Fin.natAdd 1) :=
  congrArg Node.children (node_aboveRoot c g below)

/-- What is not the component above stands below it. -/
theorem eq_aboveRoot_or (v : Fin (1 + n)) : v = aboveRoot n ∨ ∃ i, v = Fin.natAdd 1 i := by
  cases v using Fin.addCases with
  | left i =>
    left
    rw [Subsingleton.elim i 0]
    rfl
  | right i => exact .inr ⟨i, rfl⟩

/-! ## §2. What a graph holds. -/

/-- Is this the component of one that can be reached? -/
def Holds (g : Graph n) (start : List (Fin n)) (c : Component) : Prop :=
  ∃ i, g.Reaches start i ∧ g.component i = c

/-- **Graphs side by side hold what one or the other holds.** -/
theorem holds_append_iff (g : Graph m) (h : Graph n) (start : List (Fin m))
    (more : List (Fin n)) (c : Component) :
    (g.append h).Holds (start.map (Fin.castAdd n) ++ more.map (Fin.natAdd m)) c
      ↔ g.Holds start c ∨ h.Holds more c := by
  -- both graphs are embedded, so what is reached is reached inside one of them
  have hg := embeds_append_left g h
  have hh := embeds_append_right g h
  have hr := fun j => reaches_append_iff (g.append h) (start.map (Fin.castAdd n))
    (more.map (Fin.natAdd m)) j
  simp only [hg.reaches_iff, hh.reaches_iff] at hr
  constructor
  · rintro ⟨j, hj, rfl⟩
    rcases (hr j).1 hj with ⟨i, hi, rfl⟩ | ⟨i, hi, rfl⟩
    · exact .inl ⟨i, hi, (hg.component i).symm⟩
    · exact .inr ⟨i, hi, (hh.component i).symm⟩
  · rintro (⟨i, hi, rfl⟩ | ⟨i, hi, rfl⟩)
    · exact ⟨_, (hr _).2 (.inl ⟨i, hi, rfl⟩), hg.component i⟩
    · exact ⟨_, (hr _).2 (.inr ⟨i, hi, rfl⟩), hh.component i⟩

/-- **A component above a graph is held with all that is held below it.** -/
theorem holds_above_iff (top : Component) (g : Graph n) (below : List (Fin n)) (c : Component) :
    (g.above top below).Holds [aboveRoot n] c ↔ c = top ∨ g.Holds below c := by
  have he := embeds_above top g below
  have htop := component_aboveRoot top g below
  have hr := fun j => reaches_singleton_iff (g.above top below) (aboveRoot n) j
  -- the new component reaches itself, and below it what was reached there
  simp only [children_aboveRoot, he.reaches_iff] at hr
  constructor
  · rintro ⟨j, hj, rfl⟩
    rcases (hr j).1 hj with rfl | ⟨i, hi, rfl⟩
    · exact .inl htop
    · exact .inr ⟨i, hi, (he.component i).symm⟩
  · rintro (rfl | ⟨i, hi, rfl⟩)
    · exact ⟨_, (hr _).2 (.inl rfl), htop⟩
    · exact ⟨_, (hr _).2 (.inr ⟨i, hi, rfl⟩), he.component i⟩

end Graph

/-! ## §3. Forests. -/

namespace Forest

/-- Does the forest hold this component? -/
def Holds (f : Forest) (c : Component) : Prop := f.graph.Holds f.roots c

theorem not_holds_empty (c : Component) : ¬ empty.Holds c := by
  rintro ⟨i, -, -⟩
  exact i.elim0

theorem holds_append (a b : Forest) (c : Component) :
    (a.append b).Holds c ↔ a.Holds c ∨ b.Holds c :=
  Graph.holds_append_iff _ _ _ _ c

theorem holds_above (top : Component) (f : Forest) (c : Component) :
    (Rooted.above top f).toForest.Holds c ↔ c = top ∨ f.Holds c :=
  Graph.holds_above_iff _ _ _ c

/-- Are the forests the same but for their numbers? -/
def Isomorphic (a b : Forest) : Prop :=
  ∃ f : Fin a.size → Fin b.size, Function.Bijective f ∧ Graph.Embeds a.graph b.graph f
    ∧ b.roots = a.roots.map f

theorem Isomorphic.refl (a : Forest) : a.Isomorphic a :=
  ⟨id, Function.bijective_id, ⟨fun _ => rfl, fun _ => (List.map_id _).symm⟩,
    (List.map_id _).symm⟩

theorem Isomorphic.length_roots {a b : Forest} (h : a.Isomorphic b) :
    a.roots.length = b.roots.length := by
  obtain ⟨f, -, -, hr⟩ := h
  rw [hr, List.length_map]

end Forest

end ComponentGraph
