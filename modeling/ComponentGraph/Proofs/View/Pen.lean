/-
  ComponentGraph.Proofs.View.Pen
  ────────────────────────────────
  **WHAT THE PEN WRITES.**

  A component can be written unless its package URL cannot, and then it is
  written in one way only, given the references in use (`Component.written`).

      Allotted       — components written one after the other; no two of them
                       get one reference
      write_walk     — writing follows the walk over the graph: in full where
                       the walk enters, by reference where it meets again
      entry_ok_iff   — a graph has a document just if all that can be reached
                       may be written
-/
import ComponentGraph.Proofs.Graph.Reach
import ComponentGraph.Proofs.Purl.Spelling
import ComponentGraph.Proofs.View.Reading

namespace ComponentGraph

/-! ## §1. Writing one component. -/

namespace Component

/-- May the component be written?  It may unless its package URL may not. -/
def isWritable (c : Component) : Bool := c.purl.all Purl.isWritable

theorem isWritable_iff {c : Component} :
    c.isWritable ↔ ∀ p, c.purl = some p → ∃ s, p.text? = .ok s := by
  cases h : c.purl with
  | none => simp [isWritable, h]
  | some p => simp [isWritable, h, Purl.isWritable_iff]

/-- The component as it is written while these references are in use. -/
def written (c : Component) (used : List Field) : Written :=
  ⟨Refs.choose c.nameAtVersion c.purlText used, c.settled, c.purlText⟩

@[simp] theorem settled_settled (c : Component) : c.settled.settled = c.settled := by
  simp [settled, Function.comp_def]

@[simp] theorem isWritable_settled (c : Component) : c.settled.isWritable = c.isWritable := by
  cases h : c.purl <;> simp [isWritable, settled, h]

@[simp] theorem purlText_settled (c : Component) : c.settled.purlText = c.purlText := by
  cases h : c.purl <;> simp [purlText, settled, h]

/-- A component shows as it is, whatever its reference. -/
theorem shown_written (c : Component) (used : List Field) : (c.written used).shown = c.shown := rfl

theorem isFilled_nameAtVersion {c : Component} (h : c.name.isFilled) :
    c.nameAtVersion.isFilled := by
  unfold nameAtVersion
  split
  · have hne : c.name.inText ++ "@" ++ c.version.inText ≠ "" := by
      intro he
      have hl := congrArg String.toList he
      simp at hl
    simp [Field.ofText, Field.isFilled, Json.isFilled, hne]
  · exact h

end Component

theorem Field.isSome_of_isFilled {f : Field} (h : f.isFilled) : f.isSome := by
  cases f with
  | none => contradiction
  | some j => rfl

/-- A reference shows if the label does. -/
theorem Refs.isFilled_choose {label : Field} (h : label.isFilled) (purl : Option String)
    (used : List Field) : (choose label purl used).isFilled := by
  have hl : (fromLabel label used).isFilled := by
    rcases fromLabel_cases label used with he | ⟨m, he⟩
    · rwa [he]
    · rw [he]
      exact isFilled_numbered _ _
  unfold choose
  split
  · split
    · rename_i hu
      simp [Field.ofText, Field.isFilled, Json.isFilled, hu.1]
    · exact hl
  · exact hl

namespace Graph

variable {n : Nat}

theorem nodes_update (g : Graph n) (i : Fin n) (f : Component → Component) (j : Fin n) :
    (g.update i f).nodes.get j
      = if j = i then ⟨f (g.component i), g.children i⟩ else g.nodes.get j := by
  show (g.nodes.set i.val _ i.isLt)[j.val] = _
  rw [Vector.getElem_set]
  by_cases h : j = i
  · subst h
    rw [if_pos rfl, if_pos rfl]
    rfl
  · rw [if_neg fun hv => h (Fin.ext hv.symm), if_neg h]
    rfl

theorem component_update (g : Graph n) (i : Fin n) (f : Component → Component) (j : Fin n) :
    (g.update i f).component j = if j = i then f (g.component i) else g.component j := by
  show ((g.update i f).nodes.get j).component = _
  rw [nodes_update]
  by_cases h : j = i
  · rw [if_pos h, if_pos h]
  · rw [if_neg h, if_neg h]
    rfl

@[simp] theorem children_update (g : Graph n) (i : Fin n) (f : Component → Component) (j : Fin n) :
    (g.update i f).children j = g.children j := by
  show ((g.update i f).nodes.get j).children = _
  rw [nodes_update]
  by_cases h : j = i
  · rw [if_pos h, h]
  · rw [if_neg h]
    rfl

end Graph

namespace Pen

variable {n : Nat}

theorem purlText_of_isWritable {c : Component} (h : c.isWritable) :
    purlText c.purl = .ok c.purlText := by
  unfold Component.isWritable at h
  unfold Component.purlText
  cases hp : c.purl with
  | none => rfl
  | some p =>
    rw [hp] at h
    have h : p.isWritable := h
    simp [purlText, Purl.text?_of_isWritable h, Except.map, Except.toOption]

theorem purlText_of_not_isWritable {c : Component} (h : ¬ c.isWritable) :
    purlText c.purl = .error .badName := by
  unfold Component.isWritable at h
  cases hp : c.purl with
  | none => simp [hp] at h
  | some p =>
    rw [hp] at h
    have h : ¬ p.isWritable := h
    simp only [purlText, Purl.text?_of_not_isWritable h]
    rfl

/-- **A component that may be written is.** -/
theorem compose_of_isWritable {pen : Pen n} {i : Fin n}
    (h : (pen.graph.component i).isWritable) :
    pen.compose i = .ok ((pen.graph.component i).written pen.used) := by
  have hs : (pen.graph.component i).settled.isWritable := by
    rw [Component.isWritable_settled]
    exact h
  simp only [compose, purlText_of_isWritable h, purlText_of_isWritable hs,
    Component.purlText_settled, Component.settled_settled]
  rfl

theorem compose_of_not_isWritable {pen : Pen n} {i : Fin n}
    (h : ¬ (pen.graph.component i).isWritable) : pen.compose i = .error .badName := by
  simp only [compose, purlText_of_not_isWritable h]
  rfl

end Pen

/-! ## §2. The references that components get. -/

section Allotted

variable {n : Nat}

/-- Are the components of a list written so, one after the other, if these
references are in use at first? -/
def Allotted (g : Graph n) (w : Fin n → Written) : List Field → List (Fin n) → Prop
  | _, [] => True
  | used, i :: order =>
    w i = (g.component i).written used ∧ Allotted g w ((w i).ref :: used) order

namespace Allotted

variable {g : Graph n} {w : Fin n → Written} {used : List Field} {order : List (Fin n)}

/-- No component gets a reference that was in use. -/
theorem ref_not_mem (h : Allotted g w used order) : ∀ i ∈ order, (w i).ref ∉ used := by
  induction order generalizing used with
  | nil => simp
  | cons i order ih =>
    intro j hj
    rcases List.mem_cons.1 hj with rfl | hj
    · rw [h.1]
      exact Refs.choose_not_mem _ _ _
    · exact fun hm => ih h.2 j hj (List.mem_cons_of_mem _ hm)

/-- **No two components get one reference.** -/
theorem nodup (h : Allotted g w used order) : (order.map fun i => (w i).ref).Nodup := by
  induction order generalizing used with
  | nil => exact List.nodup_nil
  | cons i order ih =>
    rw [List.map_cons, List.nodup_cons]
    refine ⟨?_, ih h.2⟩
    -- the reference of the first one is in use for all that come later
    intro hm
    obtain ⟨j, hj, he⟩ := List.mem_map.1 hm
    exact h.2.ref_not_mem j hj (by simp [he])

/-- How a component is written depends on the references before it. -/
theorem eq_written {before after : List (Fin n)} {i : Fin n}
    (h : Allotted g w used (before ++ i :: after)) :
    w i = (g.component i).written ((before.map fun j => (w j).ref).reverse ++ used) := by
  induction before generalizing used with
  | nil => exact h.1
  | cons j before ih =>
    rw [ih h.2, List.map_cons, List.reverse_cons, List.append_assoc]
    rfl

theorem exists_eq_written (h : Allotted g w used order) :
    ∀ i ∈ order, ∃ before, w i = (g.component i).written before := by
  intro i hi
  obtain ⟨before, after, rfl⟩ := List.append_of_mem hi
  exact ⟨_, h.eq_written⟩

/-- What is shown of a component does not depend on its reference. -/
theorem shown (h : Allotted g w used order) :
    ∀ i ∈ order, (w i).shown = (g.component i).shown := by
  intro i hi
  obtain ⟨before, hw⟩ := h.exists_eq_written i hi
  rw [hw, Component.shown_written]

/-- Components with names get references that show. -/
theorem isFilled_ref (h : Allotted g w used order)
    (hname : ∀ i ∈ order, (g.component i).name.isFilled) : ∀ i ∈ order, (w i).ref.isFilled := by
  intro i hi
  obtain ⟨before, hw⟩ := h.exists_eq_written i hi
  rw [hw]
  exact Refs.isFilled_choose (Component.isFilled_nameAtVersion (hname i hi)) _ _

end Allotted

end Allotted

/-! ## §3. Writing all. -/

namespace Graph

variable {n : Nat} (g : Graph n) (w : Fin n → Written)

/-- The mark of a stop, when components are written in this way. -/
def mark : Stop (Fin n) → Mark
  | .first i => .full (w i) (g.children i).length
  | .again i => .ref (w i).ref

end Graph

namespace Pen

variable {n : Nat}

/-- The state of the writing when these components have been written. -/
structure Holds (g : Graph n) (seen : List (Fin n)) (pen : Pen n) : Prop where
  children : ∀ i, pen.graph.children i = g.children i
  component : ∀ i, i ∉ seen → pen.graph.component i = g.component i
  shown : ∀ i, i ∈ seen ↔ (pen.refOf i).isFilled

theorem refOf_start (g : Graph n) (i : Fin n) : (start g).refOf i = none :=
  Vector.getElem_replicate i.isLt

theorem Holds.start (g : Graph n) : Holds g [] (.start g) where
  children _ := rfl
  component _ _ := rfl
  shown i := by simp [refOf_start, Field.isFilled]

/-- One more component has been written, and its reference shows. -/
theorem Holds.record {g : Graph n} {seen : List (Fin n)} {pen : Pen n} (h : Holds g seen pen)
    {i : Fin n} {w : Written} (hw : w.ref.isFilled) : Holds g (i :: seen) (pen.record i w) where
  children j := by
    rw [← h.children j]
    exact Graph.children_update _ _ _ _
  component j hj := by
    rw [List.mem_cons, not_or] at hj
    rw [← h.component j hj.2]
    exact (Graph.component_update _ _ _ _).trans (if_neg hj.1)
  shown j := by
    rw [refOf_record, List.mem_cons]
    by_cases hj : j = i
    · simp [hj, hw]
    · simp [hj, h.shown j]

/-- What has not been written yet is written as the graph has it. -/
theorem Holds.compose {g : Graph n} {seen : List (Fin n)} {pen : Pen n} (h : Holds g seen pen)
    {i : Fin n} (hs : i ∉ seen) (hw : (g.component i).isWritable) :
    pen.compose i = .ok ((g.component i).written pen.used) := by
  rw [← h.component i hs] at hw ⊢
  exact compose_of_isWritable hw

/-- What has been written before keeps its reference, and the new component
has its own. -/
theorem ref_update {seen : List (Fin n)} {pen : Pen n} {w₀ : Fin n → Written} (i : Fin n)
    (w : Written) (h : ∀ j ∈ seen, (w₀ j).ref = pen.refOf j) :
    ∀ j ∈ i :: seen, (Function.update w₀ i w j).ref = (pen.record i w).refOf j := by
  intro j hj
  rw [refOf_record]
  by_cases hji : j = i
  · subst hji
    rw [Function.update_self, if_pos rfl]
  · rw [Function.update_of_ne hji, if_neg hji]
    exact h j (List.mem_of_ne_of_mem hji hj)

/-- **Writing follows the walk.**  Components with names get references that
show, so each is written once. -/
theorem write_walk {g : Graph n} {P : Fin n → Prop} (hdown : ∀ i, P i → ∀ j ∈ g.children i, P j)
    (hname : ∀ i, P i → (g.component i).name.isFilled)
    (hwrite : ∀ i, P i → (g.component i).isWritable)
    (pen : Pen n) (waiting seen : List (Fin n)) (w₀ : Fin n → Written) (hold : Holds g seen pen)
    (hw₀ : ∀ i ∈ seen, (w₀ i).ref = pen.refOf i) (hwait : ∀ i ∈ waiting, P i) :
    ∃ w : Fin n → Written, (∀ i ∈ seen, w i = w₀ i)
      ∧ (pen.write waiting).marks
        = .ok ((Walk.stops id g.children (List.finRange n) seen waiting).map (g.mark w))
      ∧ Allotted g w pen.used
        (Stop.firsts (Walk.stops id g.children (List.finRange n) seen waiting)) := by
  fun_induction write pen waiting generalizing seen w₀ with
  | case1 pen =>
    rw [Walk.stops]
    exact ⟨w₀, fun _ _ => rfl, rfl, trivial⟩
  | case2 pen i waiting hi ih =>
    -- the reference shows, so the walk has been here
    have hs : i ∈ seen := (hold.shown i).2 hi
    obtain ⟨w, hw, hmarks, hallot⟩ := ih seen w₀ hold hw₀
      fun j hj => hwait j (List.mem_cons_of_mem _ hj)
    rw [Graph.stops_again g hs]
    refine ⟨w, hw, ?_, hallot⟩
    simp only [Outcome.prepend, hmarks, List.map_cons, Graph.mark, hw i hs, hw₀ i hs]
    rfl
  | case3 pen i waiting hi e he =>
    -- a component that has not been written yet may be
    have hs : i ∉ seen := fun hs => hi ((hold.shown i).1 hs)
    rw [hold.compose hs (hwrite i (hwait i List.mem_cons_self))] at he
    contradiction
  | case4 pen i waiting hi w₁ he below ih =>
    have hs : i ∉ seen := fun hs => hi ((hold.shown i).1 hs)
    have hP : P i := hwait i List.mem_cons_self
    have hw₁ : w₁ = (g.component i).written pen.used := by
      rw [hold.compose hs (hwrite i hP)] at he
      exact (Except.ok.inj he).symm
    have hfill : w₁.ref.isFilled := by
      rw [hw₁]
      exact Refs.isFilled_choose (Component.isFilled_nameAtVersion (hname i hP)) _ _
    have hbelow : below = g.children i := hold.children i
    have hwait' : ∀ j ∈ below ++ waiting, P j := by
      intro j hj
      rcases List.mem_append.1 hj with hj | hj
      · exact hdown i hP j (hbelow ▸ hj)
      · exact hwait j (List.mem_cons_of_mem _ hj)
    -- the rest is written with this component added to what has been written
    obtain ⟨w, hw, hmarks, hallot⟩ := ih (i :: seen) (Function.update w₀ i w₁)
      (hold.record hfill) (ref_update i w₁ hw₀) hwait'
    have hwi : w i = w₁ := by
      rw [hw i List.mem_cons_self, Function.update_self]
    rw [Graph.stops_first g hs]
    refine ⟨w, ?_, ?_, ?_⟩
    · intro j hj
      have h : j ≠ i := fun h => hs (h ▸ hj)
      rw [hw j (List.mem_cons_of_mem _ hj), Function.update_of_ne h]
    · rw [hbelow] at hmarks ⊢
      simp only [Outcome.prepend, hmarks, List.map_cons, Graph.mark, hwi]
      rfl
    · rw [hbelow] at hallot
      refine ⟨?_, ?_⟩
      · rw [hwi, hw₁]
      · rw [hwi]
        exact hallot

/-! ## §4. When writing succeeds. -/

/-- The state still has the graph's children, and may write what the graph
lets it write. -/
structure Alike (g : Graph n) (pen : Pen n) : Prop where
  children : ∀ i, pen.graph.children i = g.children i
  isWritable : ∀ i, (pen.graph.component i).isWritable = (g.component i).isWritable

theorem Alike.start (g : Graph n) : Alike g (.start g) := ⟨fun _ => rfl, fun _ => rfl⟩

theorem Outcome.prepend_ok {o : Outcome n} {mark : Mark} {marks : List Mark} :
    (o.prepend mark).marks = .ok marks ↔ ∃ rest, o.marks = .ok rest ∧ mark :: rest = marks := by
  cases h : o.marks <;> simp [prepend, h, Except.map]

theorem Outcome.prepend_error {o : Outcome n} {mark : Mark} {e : PurlError} :
    (o.prepend mark).marks = .error e ↔ o.marks = .error e := by
  cases h : o.marks <;> simp [prepend, h, Except.map]

theorem compose_cases (pen : Pen n) (i : Fin n) :
    (pen.graph.component i).isWritable
        ∧ pen.compose i = .ok ((pen.graph.component i).written pen.used)
      ∨ ¬ (pen.graph.component i).isWritable ∧ pen.compose i = .error .badName := by
  by_cases h : (pen.graph.component i).isWritable
  · exact .inl ⟨h, compose_of_isWritable h⟩
  · exact .inr ⟨h, compose_of_not_isWritable h⟩

theorem Alike.record {g : Graph n} {pen : Pen n} (h : Alike g pen) {i : Fin n} {w : Written}
    (hw : pen.compose i = .ok w) : Alike g (pen.record i w) where
  children j := by
    rw [← h.children j]
    exact Graph.children_update _ _ _ _
  isWritable j := by
    rw [← h.isWritable j]
    show ((pen.graph.update i fun _ => w.component).component j).isWritable = _
    rw [Graph.component_update]
    split
    · -- settling a component does not change whether it may be written
      rename_i hj
      subst hj
      rcases compose_cases pen j with ⟨_, hc⟩ | ⟨_, hc⟩
      · rw [hc] at hw
        rw [← Except.ok.inj hw]
        exact Component.isWritable_settled _
      · rw [hc] at hw
        contradiction
    · rfl

/-- Where everything may be written, writing succeeds. -/
theorem write_ok {g : Graph n} {P : Fin n → Prop} (hdown : ∀ i, P i → ∀ j ∈ g.children i, P j)
    (hwrite : ∀ i, P i → (g.component i).isWritable) (pen : Pen n) (waiting : List (Fin n))
    (h : Alike g pen) (hwait : ∀ i ∈ waiting, P i) :
    ∃ marks, (pen.write waiting).marks = .ok marks := by
  fun_induction write pen waiting with
  | case1 pen => exact ⟨[], rfl⟩
  | case2 pen i waiting hi ih =>
    obtain ⟨marks, hm⟩ := ih h fun j hj => hwait j (List.mem_cons_of_mem _ hj)
    exact ⟨_, Outcome.prepend_ok.2 ⟨marks, hm, rfl⟩⟩
  | case3 pen i waiting hi e he =>
    have hc : (pen.graph.component i).isWritable := by
      rw [h.isWritable]
      exact hwrite i (hwait i List.mem_cons_self)
    rw [compose_of_isWritable hc] at he
    contradiction
  | case4 pen i waiting hi w he below ih =>
    have hP : P i := hwait i List.mem_cons_self
    obtain ⟨marks, hm⟩ := ih (h.record he) fun j hj => by
      rcases List.mem_append.1 hj with hj | hj
      · exact hdown i hP j (h.children i ▸ hj)
      · exact hwait j (List.mem_cons_of_mem _ hj)
    exact ⟨_, Outcome.prepend_ok.2 ⟨marks, hm, rfl⟩⟩

/-- Where writing succeeds, there are components that hold all that was
waiting, and are closed under children, as far as they had no reference that
shows; and these may be written. -/
theorem writable_of_write {g : Graph n} (pen : Pen n) (waiting : List (Fin n))
    (h : Alike g pen) {marks : List Mark} (hm : (pen.write waiting).marks = .ok marks) :
    ∃ P : Fin n → Prop, (∀ i ∈ waiting, P i) ∧ ∀ i, P i → (pen.refOf i).isFilled
      ∨ (g.component i).isWritable ∧ ∀ j ∈ g.children i, P j := by
  -- the components are those that the writing comes to
  fun_induction write pen waiting generalizing marks with
  | case1 pen => exact ⟨fun _ => False, by simp, by simp⟩
  | case2 pen i waiting hi ih =>
    obtain ⟨rest, hr, -⟩ := Outcome.prepend_ok.1 hm
    obtain ⟨P, hwait, hclosed⟩ := ih h hr
    refine ⟨fun j => j = i ∨ P j, ?_, ?_⟩
    · intro j hj
      rcases List.mem_cons.1 hj with rfl | hj
      · exact .inl rfl
      · exact .inr (hwait j hj)
    · rintro j (rfl | hj)
      · exact .inl hi
      · rcases hclosed j hj with hf | ⟨hw, hd⟩
        · exact .inl hf
        · exact .inr ⟨hw, fun k hk => .inr (hd k hk)⟩
  | case3 pen i waiting hi e he => contradiction
  | case4 pen i waiting hi w he below ih =>
    obtain ⟨rest, hr, -⟩ := Outcome.prepend_ok.1 hm
    obtain ⟨P, hwait, hclosed⟩ := ih (h.record he) hr
    have hbelow : below = g.children i := h.children i
    have hi : (g.component i).isWritable := by
      rw [← h.isWritable]
      rcases compose_cases pen i with ⟨hw, -⟩ | ⟨-, hc⟩
      · exact hw
      · rw [hc] at he
        contradiction
    refine ⟨fun j => j = i ∨ P j, ?_, ?_⟩
    · intro j hj
      rcases List.mem_cons.1 hj with rfl | hj
      · exact .inl rfl
      · exact .inr (hwait j (List.mem_append_right _ hj))
    · intro j hj
      -- the component that has just been written is closed by what waits now
      by_cases hji : j = i
      · subst hji
        refine .inr ⟨hi, fun k hk => .inr (hwait k ?_)⟩
        rw [hbelow]
        exact List.mem_append_left _ hk
      · have hj := hj.resolve_left hji
        rcases hclosed j hj with hf | ⟨hw, hd⟩
        · rw [refOf_record, if_neg hji] at hf
          exact .inl hf
        · exact .inr ⟨hw, fun k hk => .inr (hd k hk)⟩

/-- Writing fails for one reason only. -/
theorem write_error (pen : Pen n) (waiting : List (Fin n)) {e : PurlError}
    (h : (pen.write waiting).marks = .error e) : e = .badName := by
  fun_induction write pen waiting with
  | case1 pen => contradiction
  | case2 pen i waiting hi ih => exact ih (Outcome.prepend_error.1 h)
  | case3 pen i waiting hi e' he =>
    rcases compose_cases pen i with ⟨-, hc⟩ | ⟨-, hc⟩
    · rw [hc] at he
      contradiction
    · rw [hc] at he
      exact (Except.error.inj h).symm.trans (Except.error.inj he).symm
  | case4 pen i waiting hi w he below ih => exact ih (Outcome.prepend_error.1 h)

end Pen

namespace Graph

variable {n : Nat} (g : Graph n) (root : Fin n)

/-- **A graph has a document just if all that can be reached may be written.** -/
theorem entry_ok_iff : (∃ e, g.entry root = .ok e)
    ↔ ∀ i, g.Reaches [root] i → (g.component i).isWritable := by
  have hentry : (∃ e, g.entry root = .ok e)
      ↔ ∃ marks, ((Pen.start g).write [root]).marks = .ok marks := by
    unfold entry Pen.Outcome.entry marks
    cases ((Pen.start g).write [root]).marks <;> simp [Except.map]
  rw [hentry]
  constructor
  · rintro ⟨marks, hm⟩ i hi
    obtain ⟨P, hroot, hclosed⟩ := Pen.writable_of_write _ _ (.start g) hm
    -- at the start no reference shows
    have hclosed : ∀ j, P j → (g.component j).isWritable ∧ ∀ k ∈ g.children j, P k := by
      intro j hj
      rcases hclosed j hj with hf | h
      · rw [Pen.refOf_start] at hf
        contradiction
      · exact h
    exact (hclosed i (hi.closed hroot fun j hj => (hclosed j hj).2)).1
  · intro h
    exact Pen.write_ok (fun _ hi _ hj => .child hi hj) h _ _ (.start g) fun _ hi => .start hi

/-- The entry of a graph is the one that its marks spell. -/
theorem entry_of_nest {marks : List Mark} {e : Entry} (hmarks : (g.marks root).marks = .ok marks)
    (hnest : Mark.nest marks = [e]) : g.entry root = .ok e := by
  rw [entry, Pen.Outcome.entry, hmarks]
  show Except.ok ((Mark.nest marks).head?.getD default) = _
  rw [hnest]
  rfl

/-- There is one reason only why a graph has no document. -/
theorem entry_error {e : PurlError} (h : g.entry root = .error e) : e = .badName := by
  apply Pen.write_error (.start g) [root]
  unfold entry Pen.Outcome.entry marks at h
  cases hm : ((Pen.start g).write [root]).marks with
  | ok marks => simp [hm, Except.map] at h
  | error e' => simpa [hm, Except.map] using h

end Graph

end ComponentGraph
