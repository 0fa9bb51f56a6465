/-
  ComponentGraph.Proofs.Graph.Parts
  ────────────────────────────────
  **GRAPHS THAT ARE MADE OF PARTS.**

  Graphs side by side stand in the graph that they make up, apart from each
  other, and so they do below a component:

      Graph.Splits    — a graph is made of two, and of nothing else
      Graph.MadeOf    — what hangs below comes from some forests, in order,
                        and what comes from one cannot be reached from
                        another
      Rooted.Joins    — a rooted graph is made of two that share the root
      joins_above     — so are the parts of a graph below a component
-/
import ComponentGraph.Proofs.Graph.Embedding
import Mathlib.Data.Fin.Tuple.Basic
import Mathlib.Data.List.Forall2

namespace ComponentGraph

namespace Graph

variable {k l m n : Nat} {a : Graph l} {b : Graph m} {c : Graph n}
variable {f : Fin l → Fin n} {g : Fin m → Fin n}

/-! ## §1. Embeddings, one after the other and side by side. -/

theorem Embeds.trans {d : Graph k} {e : Fin n → Fin k} (hf : Embeds a c f) (he : Embeds c d e) :
    Embeds a d (e ∘ f) where
  component i := (he.component (f i)).trans (hf.component i)
  children i := by
    show d.children (e (f i)) = _
    rw [he.children, hf.children, List.map_map]

theorem castAdd_ne_natAdd (i : Fin l) (j : Fin m) : Fin.castAdd m i ≠ Fin.natAdd l j := by
  intro he
  have hv : i.val = l + j.val := congrArg Fin.val he
  omega

theorem map_append_left (row : List (Fin l)) :
    (row.map (Fin.castAdd m)).map (Fin.append f g) = row.map f := by
  rw [List.map_map]
  exact List.map_congr_left fun i _ => Fin.append_left f g i

theorem map_append_right (row : List (Fin m)) :
    (row.map (Fin.natAdd l)).map (Fin.append f g) = row.map g := by
  rw [List.map_map]
  exact List.map_congr_left fun j _ => Fin.append_right f g j

/-- Graphs side by side stand where each of them stands. -/
theorem Embeds.append (hf : Embeds a c f) (hg : Embeds b c g) :
    Embeds (a.append b) c (Fin.append f g) where
  component i := by
    cases i using Fin.addCases with
    | left i => rw [Fin.append_left, hf.component, (embeds_append_left a b).component]
    | right j => rw [Fin.append_right, hg.component, (embeds_append_right a b).component]
  children i := by
    cases i using Fin.addCases with
    | left i =>
      rw [Fin.append_left, hf.children, (embeds_append_left a b).children, map_append_left]
    | right j =>
      rw [Fin.append_right, hg.children, (embeds_append_right a b).children, map_append_right]

/-! ## §2. Graphs that are made of two. -/

/-- **A graph is made of two.**  They stand in it under these numbers, apart from
each other, and there is nothing else. -/
structure Splits (c : Graph n) (a : Graph l) (b : Graph m) (f : Fin l → Fin n)
    (g : Fin m → Fin n) : Prop where
  left : Embeds a c f
  right : Embeds b c g
  injective_left : Function.Injective f
  injective_right : Function.Injective g
  apart : ∀ i j, f i ≠ g j
  covers : ∀ v, (∃ i, f i = v) ∨ ∃ j, g j = v

theorem splits_empty (a : Graph l) : a.Splits a empty id Fin.elim0 where
  left := ⟨fun _ => rfl, fun _ => (List.map_id _).symm⟩
  right := ⟨fun i => i.elim0, fun i => i.elim0⟩
  injective_left := Function.injective_id
  injective_right i := i.elim0
  apart _ j := j.elim0
  covers v := .inl ⟨v, rfl⟩

/-- **A graph beside the whole goes to its second part.** -/
theorem Splits.append (h : c.Splits a b f g) (d : Graph k) :
    (c.append d).Splits a (b.append d) (fun i => Fin.castAdd k (f i))
      (Fin.append (fun j => Fin.castAdd k (g j)) (Fin.natAdd n)) where
  left := h.left.trans (embeds_append_left c d)
  right := (h.right.trans (embeds_append_left c d)).append (embeds_append_right c d)
  injective_left := (Fin.castAdd_injective n k).comp h.injective_left
  injective_right := Fin.append_injective_iff.2
    ⟨(Fin.castAdd_injective n k).comp h.injective_right, Fin.natAdd_injective k n,
      fun j v => castAdd_ne_natAdd (g j) v⟩
  apart i v := by
    cases v using Fin.addCases with
    | left j =>
      rw [Fin.append_left]
      exact fun he => h.apart i j (Fin.castAdd_injective n k he)
    | right j =>
      rw [Fin.append_right]
      exact castAdd_ne_natAdd (f i) j
  covers v := by
    cases v using Fin.addCases with
    | left v =>
      rcases h.covers v with ⟨i, rfl⟩ | ⟨j, rfl⟩
      · exact .inl ⟨i, rfl⟩
      · exact .inr ⟨Fin.castAdd k j, Fin.append_left ..⟩
    | right v => exact .inr ⟨Fin.natAdd m v, Fin.append_right ..⟩

/-- Roots that come from two parts still do with those of a graph beside them. -/
theorem map_split_append (f : Fin l → Fin n) (g : Fin m → Fin n) (start : List (Fin l))
    (more : List (Fin m)) (last : List (Fin k)) :
    (start.map f ++ more.map g).map (Fin.castAdd k) ++ last.map (Fin.natAdd n)
      = start.map (fun i => Fin.castAdd k (f i))
        ++ (more.map (Fin.castAdd k) ++ last.map (Fin.natAdd m)).map
          (Fin.append (fun j => Fin.castAdd k (g j)) (Fin.natAdd n)) := by
  rw [List.map_append, List.map_append, map_append_left, map_append_right, List.map_map,
    List.map_map, List.append_assoc]
  rfl

/-! ## §3. Parts that do not meet. -/

/-- Is nothing reached from both? -/
def Apart (g : Graph n) (start more : List (Fin n)) : Prop :=
  ∀ i, g.Reaches start i → ¬ g.Reaches more i

/-- Do the components below come from this forest, under other numbers? -/
def Shows (g : Graph n) (below : List (Fin n)) (part : Forest) : Prop :=
  ∃ φ, Function.Injective φ ∧ Embeds part.graph g φ ∧ below = part.roots.map φ

/-- **What hangs below comes from these forests, in order**, and what comes from
one of them cannot be reached from another. -/
def MadeOf (g : Graph n) (below : List (Fin n)) (parts : List Forest) : Prop :=
  ∃ rows : List (List (Fin n)), below = rows.flatten ∧ List.Forall₂ g.Shows rows parts
    ∧ rows.Pairwise g.Apart

theorem Apart.map (hf : Embeds a c f) (hinj : Function.Injective f) {start more : List (Fin l)}
    (h : a.Apart start more) : c.Apart (start.map f) (more.map f) := by
  intro v hs hm
  obtain ⟨i, hi, rfl⟩ := (hf.reaches_iff start v).1 hs
  obtain ⟨j, hj, he⟩ := (hf.reaches_iff more (f i)).1 hm
  exact h i hi (hinj he ▸ hj)

/-- What is reached in one of two graphs side by side is not in the other. -/
theorem apart_append (a : Graph l) (b : Graph m) (start : List (Fin l)) (more : List (Fin m)) :
    (a.append b).Apart (start.map (Fin.castAdd m)) (more.map (Fin.natAdd l)) := by
  intro v hs hm
  obtain ⟨i, -, rfl⟩ := ((embeds_append_left a b).reaches_iff start v).1 hs
  obtain ⟨j, -, he⟩ := ((embeds_append_right a b).reaches_iff more _).1 hm
  exact castAdd_ne_natAdd i j he.symm

theorem Shows.map (hf : Embeds a c f) (hinj : Function.Injective f) {below : List (Fin l)}
    {part : Forest} (h : a.Shows below part) : c.Shows (below.map f) part := by
  obtain ⟨φ, hφ, he, rfl⟩ := h
  exact ⟨f ∘ φ, hinj.comp hφ, he.trans hf, List.map_map ..⟩

theorem madeOf_empty : empty.MadeOf [] [] := ⟨[], rfl, .nil, .nil⟩

/-- A graph is made of the same parts wherever it stands. -/
theorem MadeOf.map (hf : Embeds a c f) (hinj : Function.Injective f) {below : List (Fin l)}
    {parts : List Forest} (h : a.MadeOf below parts) : c.MadeOf (below.map f) parts := by
  obtain ⟨rows, rfl, hshows, hapart⟩ := h
  refine ⟨rows.map (List.map f), List.map_flatten, ?_, ?_⟩
  · rw [List.forall₂_map_left_iff]
    exact hshows.imp fun _ _ h => h.map hf hinj
  · rw [List.pairwise_map]
    exact hapart.imp fun h => h.map hf hinj

/-- **A forest beside a graph is one more part.** -/
theorem MadeOf.concat {below : List (Fin l)} {parts : List Forest} (h : a.MadeOf below parts)
    (part : Forest) :
    (a.append part.graph).MadeOf
      (below.map (Fin.castAdd part.size) ++ part.roots.map (Fin.natAdd l)) (parts ++ [part]) := by
  obtain ⟨rows, hrows, hshows, hapart⟩ :=
    h.map (embeds_append_left a part.graph) (Fin.castAdd_injective l part.size)
  refine ⟨rows ++ [part.roots.map (Fin.natAdd l)], ?_, ?_, ?_⟩
  · rw [List.flatten_append, List.flatten_singleton, hrows]
  · have hlast : (a.append part.graph).Shows (part.roots.map (Fin.natAdd l)) part :=
      ⟨_, Fin.natAdd_injective part.size l, embeds_append_right a part.graph, rfl⟩
    exact List.rel_append hshows (.cons hlast .nil)
  · rw [List.pairwise_append]
    refine ⟨hapart, List.pairwise_singleton _ _, ?_⟩
    intro row hrow last hlast v hv
    rw [List.mem_singleton.1 hlast]
    -- a row reaches nothing that the rows do not reach together
    apply apart_append a part.graph below part.roots v
    rw [hrows]
    exact hv.trans fun j hj => .start (List.mem_flatten_of_mem hrow hj)

/-! ## §4. Below a component. -/

/-- The numbers of a graph that stands in another one, with a component above
both. -/
def underRoot (f : Fin l → Fin n) : Fin (1 + l) → Fin (1 + n) :=
  Fin.append (fun _ : Fin 1 => aboveRoot n) fun i => Fin.natAdd 1 (f i)

theorem aboveRoot_ne_natAdd (i : Fin n) : aboveRoot n ≠ Fin.natAdd 1 i :=
  castAdd_ne_natAdd (0 : Fin 1) i

@[simp] theorem underRoot_aboveRoot (f : Fin l → Fin n) : underRoot f (aboveRoot l) = aboveRoot n :=
  Fin.append_left (fun _ : Fin 1 => aboveRoot n) _ 0

@[simp] theorem underRoot_natAdd (f : Fin l → Fin n) (i : Fin l) :
    underRoot f (Fin.natAdd 1 i) = Fin.natAdd 1 (f i) :=
  Fin.append_right (fun _ : Fin 1 => aboveRoot n) _ i

theorem map_underRoot (f : Fin l → Fin n) (row : List (Fin l)) :
    (row.map (Fin.natAdd 1)).map (underRoot f) = (row.map f).map (Fin.natAdd 1) := by
  rw [List.map_map, List.map_map]
  exact List.map_congr_left fun i _ => underRoot_natAdd f i

theorem underRoot_injective (h : Function.Injective f) : Function.Injective (underRoot f) :=
  Fin.append_injective_iff.2 ⟨Function.injective_of_subsingleton _,
    (Fin.natAdd_injective n 1).comp h, fun _ i => aboveRoot_ne_natAdd (f i)⟩

end Graph

namespace Rooted

/-- A rooted graph stands in another one: their roots are one component, which
may have more children there. -/
structure PartOf (part whole : Rooted) (f : Fin part.size → Fin whole.size) : Prop where
  injective : Function.Injective f
  root : f part.root = whole.root
  component : ∀ i, whole.graph.component (f i) = part.graph.component i
  children : ∀ i, i ≠ part.root → whole.graph.children (f i) = (part.graph.children i).map f

/-- **A rooted graph is made of two that share the root**, and nothing else.  The
children of the root are those of the first, then those of the second. -/
structure Joins (whole a b : Rooted) (f : Fin a.size → Fin whole.size)
    (g : Fin b.size → Fin whole.size) : Prop where
  left : a.PartOf whole f
  right : b.PartOf whole g
  children : whole.graph.children whole.root
    = (a.graph.children a.root).map f ++ (b.graph.children b.root).map g
  shared : ∀ i j, f i = g j → i = a.root
  covers : ∀ v, (∃ i, f i = v) ∨ ∃ j, g j = v

variable {a b c : Forest} {f : Fin a.size → Fin c.size} {g : Fin b.size → Fin c.size}

theorem partOf_above (top : Component) (hf : Graph.Embeds a.graph c.graph f)
    (hinj : Function.Injective f) :
    (above top a).PartOf (above top c) (Graph.underRoot f) where
  injective := Graph.underRoot_injective hinj
  root := Graph.underRoot_aboveRoot f
  component i := by
    show (c.graph.above top c.roots).component _ = (a.graph.above top a.roots).component i
    rcases Graph.eq_aboveRoot_or i with rfl | ⟨i, rfl⟩
    · rw [Graph.underRoot_aboveRoot, Graph.component_aboveRoot, Graph.component_aboveRoot]
    · rw [Graph.underRoot_natAdd, (Graph.embeds_above top c.graph c.roots).component,
        (Graph.embeds_above top a.graph a.roots).component, hf.component]
  children i hi := by
    show (c.graph.above top c.roots).children _ = ((a.graph.above top a.roots).children i).map _
    obtain ⟨i, rfl⟩ := (Graph.eq_aboveRoot_or i).resolve_left hi
    rw [Graph.underRoot_natAdd, (Graph.embeds_above top c.graph c.roots).children,
      (Graph.embeds_above top a.graph a.roots).children, hf.children, Graph.map_underRoot]

/-- **Below a component, the parts of a graph share this component only.** -/
theorem joins_above (top : Component) (h : c.graph.Splits a.graph b.graph f g)
    (hroots : c.roots = a.roots.map f ++ b.roots.map g) :
    (above top c).Joins (above top a) (above top b) (Graph.underRoot f) (Graph.underRoot g) where
  left := partOf_above top h.left h.injective_left
  right := partOf_above top h.right h.injective_right
  children := by
    have hrow : (c.graph.above top c.roots).children (Graph.aboveRoot c.size)
        = ((a.graph.above top a.roots).children (Graph.aboveRoot a.size)).map (Graph.underRoot f)
          ++ ((b.graph.above top b.roots).children (Graph.aboveRoot b.size)).map
            (Graph.underRoot g) := by
      rw [Graph.children_aboveRoot, Graph.children_aboveRoot, Graph.children_aboveRoot,
        Graph.map_underRoot, Graph.map_underRoot, ← List.map_append, hroots]
    exact hrow
  shared i j he := by
    rcases Graph.eq_aboveRoot_or i with rfl | ⟨i, rfl⟩
    · rfl
    · rw [Graph.underRoot_natAdd] at he
      rcases Graph.eq_aboveRoot_or j with rfl | ⟨j, rfl⟩
      · rw [Graph.underRoot_aboveRoot] at he
        exact absurd he.symm (Graph.aboveRoot_ne_natAdd _)
      · rw [Graph.underRoot_natAdd] at he
        exact absurd (Fin.natAdd_injective _ 1 he) (h.apart i j)
  covers v := by
    rcases Graph.eq_aboveRoot_or v with rfl | ⟨v, rfl⟩
    · exact .inl ⟨Graph.aboveRoot a.size, Graph.underRoot_aboveRoot f⟩
    · rcases h.covers v with ⟨i, rfl⟩ | ⟨j, rfl⟩
      · exact .inl ⟨Fin.natAdd 1 i, Graph.underRoot_natAdd f i⟩
      · exact .inr ⟨Fin.natAdd 1 j, Graph.underRoot_natAdd g j⟩

/-- The parts below a component are those of the forest. -/
theorem madeOf_above (top : Component) {parts : List Forest} (h : a.graph.MadeOf a.roots parts) :
    (above top a).graph.MadeOf ((above top a).graph.children (above top a).root) parts := by
  have hmap := h.map (Graph.embeds_above top a.graph a.roots) (Fin.natAdd_injective a.size 1)
  rw [← Graph.children_aboveRoot top a.graph a.roots] at hmap
  exact hmap

/-- **What is below a component does not reach it.** -/
theorem not_reaches_above (top : Component) (a : Forest) (i : Fin (above top a).size)
    (h : (above top a).graph.Reaches ((above top a).graph.children (above top a).root) i) :
    ¬ (above top a).graph.Reaches [i] (above top a).root := by
  have he := Graph.embeds_above top a.graph a.roots
  have hrow : (above top a).graph.children (above top a).root = a.roots.map (Fin.natAdd 1) :=
    Graph.children_aboveRoot top a.graph a.roots
  rw [hrow] at h
  obtain ⟨j, -, rfl⟩ := (he.reaches_iff a.roots i).1 h
  -- what is reached from below the component stands below it
  intro hroot
  obtain ⟨v, -, hv⟩ := (he.reaches_iff [j] _).1 hroot
  exact Graph.aboveRoot_ne_natAdd v hv.symm

end Rooted

end ComponentGraph
