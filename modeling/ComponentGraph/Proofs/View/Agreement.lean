/-
  ComponentGraph.Proofs.View.Agreement
  ────────────────────────────────
  **ALL VIEWS SHOW ONE GRAPH.**

  The document, the tree and the counts go through a graph independently of
  each other.  Their entries, lines and numbers agree all the same:

      IsMargin      — what stands before a line at some depth
      Row           — an entry and a place in the tree stand for the same
      ViewsAgree    — what it is for the three views to agree
      rows_agree    — the walks of document and tree stay side by side
      views_agree   — the views of a graph agree
-/
import ComponentGraph.Proofs.View.Counts
import ComponentGraph.Proofs.View.Document

namespace ComponentGraph

/-! ## §1. Depth in the tree. -/

/-- The bars of the ancestors of a component at this depth. -/
inductive IsBars : Nat → String → Prop where
  | none : IsBars 0 ""
  | bar {depth : Nat} {bars : String} : IsBars depth bars → IsBars (depth + 1) (bars ++ "│   ")
  | blank {depth : Nat} {bars : String} : IsBars depth bars → IsBars (depth + 1) (bars ++ "    ")

/-- What stands before the label of a component at this depth: nothing at the
top, else the bars of its ancestors below the top, and a joint. -/
inductive IsMargin : Nat → String → Prop where
  | top : IsMargin 0 ""
  | inner {depth : Nat} {bars : String} : IsBars depth bars →
    IsMargin (depth + 1) (bars ++ "├── ")
  | last {depth : Nat} {bars : String} : IsBars depth bars →
    IsMargin (depth + 1) (bars ++ "└── ")

theorem IsBars.length {depth : Nat} {bars : String} (h : IsBars depth bars) :
    bars.length = 4 * depth := by
  induction h with
  | none => rfl
  | bar _ ih =>
    rw [String.length_append, ih]
    rfl
  | blank _ ih =>
    rw [String.length_append, ih]
    rfl

theorem IsMargin.length {depth : Nat} {margin : String} (h : IsMargin depth margin) :
    margin.length = 4 * depth := by
  cases h with
  | top => rfl
  | inner hbars =>
    rw [String.length_append, hbars.length]
    rfl
  | last hbars =>
    rw [String.length_append, hbars.length]
    rfl

/-- **A margin tells its depth.** -/
theorem IsMargin.depth_unique {depth other : Nat} {margin : String} (h : IsMargin depth margin)
    (h' : IsMargin other margin) : depth = other := by
  have hlength := h.length.symm.trans h'.length
  omega

namespace Branch

variable {n : Nat}

/-- Is this the branch of the tree for a place of the graph? -/
structure IsAt (g : Graph n) (root : Fin n) (p : Place n) (b : Branch n) : Prop where
  node : p.node = b.node
  reached : g.Reaches [root] p.node
  margin : IsMargin p.depth (b.bars ++ b.joint)
  bars : IsBars p.depth (b.bars ++ b.trail)

variable {g : Graph n} {root : Fin n}

theorem isAt_top : IsAt g root (.top root) (.top root) where
  node := rfl
  reached := .start List.mem_cons_self
  margin := .top
  bars := .none

/-- The branches below bars are those for the places one step deeper. -/
theorem isAt_row {depth : Nat} {bars : String} (hbars : IsBars depth bars) (row : List (Fin n))
    (hrow : ∀ i ∈ row, g.Reaches [root] i) :
    List.Forall₂ (IsAt g root) (row.map fun i => ⟨depth + 1, i⟩) (Branch.row bars row) := by
  fun_induction Branch.row bars row with
  | case1 => exact .nil
  | case2 i => exact .cons ⟨rfl, hrow i List.mem_cons_self, .last hbars, .blank hbars⟩ .nil
  | case3 i rest _ ih =>
    exact .cons ⟨rfl, hrow i List.mem_cons_self, .inner hbars, .bar hbars⟩
      (ih fun j hj => hrow j (List.mem_cons_of_mem _ hj))

theorem IsAt.below {p : Place n} {b : Branch n} (h : IsAt g root p b) :
    List.Forall₂ (IsAt g root) (p.below g) (b.below g) := by
  unfold Place.below Branch.below
  rw [← h.node]
  exact isAt_row h.bars (g.children p.node) fun i hi => .child h.reached hi

end Branch

/-! ## §2. Entries beside lines. -/

namespace Graph

variable {n : Nat} (g : Graph n) (root : Fin n) (colour : Bool) (refAt : Fin n → Field)

/-- An entry of a document, with its depth, beside a place of the tree: both
stand for one component at one depth, either in full or for what is above. -/
inductive Row : Nat × Item → Stop (Branch n) → Prop where
  | full {depth : Nat} {b : Branch n} : g.Reaches [root] b.node →
    IsMargin depth (b.bars ++ b.joint) →
    Row (depth, .full (refAt b.node) (g.component b.node).shown ((g.children b.node).map refAt))
      (.first b)
  | mention {depth : Nat} {b : Branch n} : g.Reaches [root] b.node →
    IsMargin depth (b.bars ++ b.joint) → Row (depth, .mention (refAt b.node)) (.again b)

/-- An entry of a document, with its depth, beside a line of the tree. -/
inductive Printed : Nat × Item → String → Prop where
  | full {depth : Nat} {i : Fin n} {margin : String} : g.Reaches [root] i →
    IsMargin depth margin →
    Printed (depth, .full (refAt i) (g.component i).shown ((g.children i).map refAt))
      (margin ++ (g.component i).label ++ (g.component i).typeLabel colour
        ++ (g.component i).vulnerabilityLabel colour)
  | mention {depth : Nat} {i : Fin n} {margin : String} : g.Reaches [root] i →
    IsMargin depth margin →
    Printed (depth, .mention (refAt i))
      (margin ++ (g.component i).label ++ (g.component i).typeLabel colour ++ " "
        ++ Style.dim.paint colour "(see above)")

variable {g root refAt}

/-- The line of a place is the one that goes with its entry. -/
theorem Row.printed {entry : Nat × Item} {s : Stop (Branch n)} (h : g.Row root refAt entry s) :
    g.Printed root colour refAt entry (treeLine colour g s) := by
  cases h with
  | full hi hmargin => exact .full hi hmargin
  | mention hi hmargin => exact .mention hi hmargin

/-- **The walks of document and tree stay side by side.** -/
theorem rows_agree {w : Fin n → Written}
    (hshown : ∀ i, g.Reaches [root] i → (w i).shown = (g.component i).shown) :
    List.Forall₂ (g.Row root fun i => (w i).ref) ((g.places root).map (g.placedItem w))
      (g.treeStops root) := by
  have h : List.Forall₂ (Stop.Rel (Branch.IsAt g root)) (g.places root) (g.treeStops root) :=
    Walk.stops_forall₂ _ _ _ _ _ (fun _ _ h => h.node) (fun _ _ h => h.below)
      (.cons Branch.isAt_top .nil)
  rw [List.forall₂_map_left_iff]
  refine h.imp fun s t hst => ?_
  cases hst with
  | @first p b hb =>
    obtain ⟨depth, i⟩ := p
    obtain ⟨rfl, hreached, hmargin, -⟩ := hb
    show g.Row root (fun i => (w i).ref) (depth, .full _ (w b.node).shown _) (.first b)
    rw [hshown b.node hreached]
    exact .full hreached hmargin
  | @again p b hb =>
    obtain ⟨depth, i⟩ := p
    obtain ⟨rfl, hreached, hmargin, -⟩ := hb
    exact .mention hreached hmargin

end Graph

/-! ## §3. Counts. -/

/-- What is shown of a component in full. -/
def Item.shown? : Item → Option Shown
  | .full _ shown _ => some shown
  | .mention _ => none

/-- What is shown of all components in full. -/
def Json.shownInFull (j : Json) : List Shown := (j.outline 0).filterMap (·.2.shown?)

/-- What is shown of a component tells its type. -/
theorem Component.type_shown_iff (c : Component) (type : String) :
    c.shown.type = .ofText type ↔ c.type = some type := by
  cases h : c.type <;> simp [shown, shownWith, Field.ofText, h]

theorem Component.countP_shown (cs : List Component) (type : String) :
    (cs.map shown).countP (fun s => s.type = .ofText type) = cs.countP fun c => c.type = some type := by
  rw [List.countP_map]
  apply List.countP_congr
  intro c _
  simp [type_shown_iff]

theorem Component.length_vulnerabilities_shown (c : Component) :
    c.shown.vulnerabilities.length = c.vulnerabilityList.length :=
  List.length_map _

namespace Graph

variable {n : Nat} {g : Graph n}

/-- What is in full are the components that the walk enters. -/
theorem shown_items (w : Fin n → Written) (stops : List (Stop (Fin n))) :
    (stops.map (g.item w)).filterMap Item.shown? = (Stop.firsts stops).map fun i => (w i).shown := by
  unfold Stop.firsts
  rw [List.filterMap_map, List.map_filterMap]
  apply List.filterMap_congr
  intro s _
  cases s <;> rfl

/-- What is in full are the components that can be reached. -/
theorem shownInFull_of_outline {root : Fin n} {w : Fin n → Written} {top : Json}
    (hshown : ∀ i, g.Reaches [root] i → (w i).shown = (g.component i).shown)
    (houtline : top.outline 0 = (g.places root).map (g.placedItem w)) :
    top.shownInFull = ((g.reached [root]).map g.component).map Component.shown := by
  have hwritten : top.shownInFull = (Stop.firsts (g.stops [root])).map fun i => (w i).shown := by
    rw [← shown_items, ← map_placedItem, ← houtline, List.filterMap_map]
    rfl
  rw [hwritten, List.map_map]
  exact List.map_congr_left fun i hi => hshown i ((g.mem_reached_iff [root]).1 hi)

theorem count_typesOf {type : String} (h : type ≠ "") (cs : List Component) :
    (typesOf cs).count type = cs.countP fun c => c.type = some type := by
  unfold typesOf
  rw [List.count_filterMap]
  apply List.countP_congr
  intro c _
  cases c.type with
  | none => simp
  | some t =>
    -- the empty type is left out, and is not the one that is counted
    by_cases ht : t = ""
    · simp [ht, h.symm]
    · by_cases he : t = type <;> simp [he, h]

theorem ne_empty_of_mem_typesOf {type : String} {cs : List Component} (h : type ∈ typesOf cs) :
    type ≠ "" := by
  obtain ⟨c, -, hc⟩ := List.mem_filterMap.1 h
  simpa using (Option.filter_eq_some_iff.1 hc).2

/-- The types of a summary are counted among the components. -/
theorem mem_byType_iff {root : Fin n} {type : String} {count : Nat} :
    (type, count) ∈ (g.summary root).byType ↔ type ≠ "" ∧ 0 < count
      ∧ ((g.reached [root]).map g.component).countP (fun c => c.type = some type) = count := by
  show (type, count) ∈ (typesOf _).eraseDups.map _ ↔ _
  rw [List.mem_map, ← (g.components_counted_perm root).countP_eq]
  constructor
  · rintro ⟨t, ht, he⟩
    obtain ⟨rfl, rfl⟩ := Prod.mk.inj he
    have ht := List.mem_eraseDups.1 ht
    have hne := ne_empty_of_mem_typesOf ht
    exact ⟨hne, List.count_pos_iff.2 ht, (count_typesOf hne _).symm⟩
  · rintro ⟨hne, hpos, rfl⟩
    rw [← count_typesOf hne] at hpos ⊢
    exact ⟨type, List.mem_eraseDups.2 (List.count_pos_iff.1 hpos), rfl⟩

/-! ## §4. The three views. -/

/-- **The views of a graph agree.**  The document has this object at its top, and
its components have these references. -/
structure ViewsAgree (g : Graph n) (root : Fin n) (colour : Bool) (top : Json)
    (refAt : Fin n → Field) : Prop where
  /-- A reference says which component is meant. -/
  distinct : ∀ i j, g.Reaches [root] i → g.Reaches [root] j → refAt i = refAt j → i = j
  /-- There is one entry for the root, and one for each child of a component. -/
  length_entries : (top.outline 0).length
    = 1 + ∑ i with g.Reaches [root] i, (g.children i).length
  /-- There are as many lines. -/
  length_lines : (g.tree colour root).length
    = 1 + ∑ i with g.Reaches [root] i, (g.children i).length
  /-- Entry by entry, the document is beside the tree. -/
  rows : List.Forall₂ (g.Row root refAt) (top.outline 0) (g.treeStops root)
  /-- Each line is the one that goes with its entry. -/
  lines : List.Forall₂ (g.Printed root colour refAt) (top.outline 0) (g.tree colour root)
  /-- The components are those in full. -/
  components : top.shownInFull.length = (g.summary root).components
  /-- Their vulnerabilities are listed with them. -/
  vulnerabilities : (top.shownInFull.map fun s => s.vulnerabilities.length).sum
    = (g.summary root).vulnerabilities
  /-- No type is counted twice. -/
  types_once : ((g.summary root).byType.map (·.1)).Nodup
  /-- A type is counted if there is one of it in full. -/
  mem_types_iff : ∀ type count, (type, count) ∈ (g.summary root).byType ↔ type ≠ "" ∧ 0 < count
    ∧ top.shownInFull.countP (fun s => s.type = .ofText type) = count

/-- The types of a summary are those of its components, each once. -/
theorem types_summary (g : Graph n) (root : Fin n) : (g.summary root).byType.map (·.1)
    = (typesOf ((g.counted root).map g.component)).eraseDups := by
  show ((typesOf _).eraseDups.map _).map _ = _
  rw [List.map_map]
  exact List.map_id _

/-- Views that are read off the walk agree. -/
theorem viewsAgree_of_outline {root : Fin n} {w : Fin n → Written} {top : Json} (colour : Bool)
    (hallot : Allotted g w [] (g.reached [root]))
    (houtline : top.outline 0 = (g.places root).map (g.placedItem w)) :
    g.ViewsAgree root colour top fun i => (w i).ref := by
  have hshown : ∀ i, g.Reaches [root] i → (w i).shown = (g.component i).shown := by
    intro i hi
    exact hallot.shown i ((g.mem_reached_iff [root]).2 hi)
  have hrows : List.Forall₂ (g.Row root fun i => (w i).ref) (top.outline 0) (g.treeStops root) := by
    rw [houtline]
    exact rows_agree hshown
  have hlines : List.Forall₂ (g.Printed root colour fun i => (w i).ref) (top.outline 0)
      (g.tree colour root) := by
    unfold tree
    rw [List.forall₂_map_right_iff]
    exact hrows.imp fun _ _ h => h.printed colour
  have hlength : (top.outline 0).length
      = 1 + ∑ i with g.Reaches [root] i, (g.children i).length := by
    rw [houtline, List.length_map, length_places]
  have hfull := shownInFull_of_outline hshown houtline
  exact {
    distinct := fun i j hi hj he => List.inj_on_of_nodup_map hallot.nodup
      ((g.mem_reached_iff [root]).2 hi) ((g.mem_reached_iff [root]).2 hj) he
    length_entries := hlength
    length_lines := hlines.length_eq ▸ hlength
    rows := hrows
    lines := hlines
    components := by rw [hfull, List.length_map, List.length_map, components_summary]
    vulnerabilities := by
      rw [hfull, List.map_map, vulnerabilities_summary]
      exact congrArg List.sum (List.map_congr_left fun c _ => c.length_vulnerabilities_shown)
    types_once := by
      rw [types_summary]
      exact nodup_eraseDups _
    mem_types_iff := by
      intro type count
      rw [mem_byType_iff, hfull, Component.countP_shown] }

/-- **The views of a graph agree**, if all components that can be reached have
names, and package URLs that can be written. -/
theorem views_agree (g : Graph n) (root : Fin n) (timestamp : String) (colour : Bool)
    (hname : ∀ i, g.Reaches [root] i → (g.component i).name.isFilled)
    (hpurl : ∀ i, g.Reaches [root] i → ∀ p, (g.component i).purl = some p → ∃ s, p.text? = .ok s) :
    ∃ doc top refAt, g.document root timestamp = .ok doc ∧ doc.get? "component" = some top
      ∧ g.ViewsAgree root colour top refAt := by
  have hwrite : ∀ i, g.Reaches [root] i → (g.component i).isWritable :=
    fun i hi => Component.isWritable_iff.2 (hpurl i hi)
  obtain ⟨w, -, hmarks, hallot⟩ := Pen.write_walk (fun _ hi _ hj => .child hi hj) hname hwrite
    (.start g) [root] [] (fun i => (g.component i).written []) (.start g) (by simp)
    fun _ hi => .start hi
  have hallot : Allotted g w [] (g.reached [root]) := hallot
  have hfill : ∀ i ∈ g.reached [root], (w i).ref.isFilled :=
    hallot.isFilled_ref fun i hi => hname i ((g.mem_reached_iff [root]).1 hi)
  obtain ⟨e, hentry, -, houtline⟩ := outline_of_marks hmarks fun i hi =>
    Field.isSome_of_isFilled (hfill i ((g.mem_reached_iff [root]).2 hi))
  refine ⟨ComponentGraph.document timestamp e, e.toJson, fun i => (w i).ref, ?_, rfl,
    viewsAgree_of_outline colour hallot houtline⟩
  rw [Graph.document, hentry]
  rfl

theorem tangled_views_agree :
    ∃ doc top refAt, tangled.document 0 "2024-01-01T00:00:00.000Z" = .ok doc
      ∧ doc.get? "component" = some top ∧ tangled.ViewsAgree 0 true top refAt := by
  have hname : ∀ i, (tangled.component i).name.isFilled := by decide
  have hwrite : ∀ i, (tangled.component i).isWritable := by decide +kernel
  exact tangled.views_agree 0 "2024-01-01T00:00:00.000Z" true (fun i _ => hname i)
    fun i _ => Component.isWritable_iff.1 (hwrite i)

end Graph

end ComponentGraph
