/-
  ComponentGraph.Proofs.View.Repeats
  ────────────────────────────────
  **COMPONENTS THAT ARE WRITTEN AGAIN.**

  A component whose reference does not show counts as new when it is met
  again, perhaps on a cycle, and is written in full once more.  By then its
  empty reference is taken, so the second one is a numbered label, which
  shows.  No reference is given twice, so there are few such components:

      Writes                  — what is written from some state on, each mark
                                with the component that it stands for
      Pen.write_writes        — what the pen writes is that
      Writes.fresh            — no reference is given twice
      Writes.refsOf_cases     — a component gets one reference, or an empty
                                one and a numbered one
-/
import ComponentGraph.Proofs.View.Pen
import Mathlib.Algebra.BigOperators.Group.List.Basic

namespace ComponentGraph

/-! ## §1. References that do not show. -/

namespace Refs

variable {label : Field} {purl : Option String} {used : List Field}

/-- A reference that does not show is the label, and there was no package URL to
choose. -/
theorem choose_of_not_isFilled (h : (choose label purl used).isFilled = false) :
    choose label purl used = label ∧ ∀ url, purl = some url → url = "" ∨ .ofText url ∈ used := by
  have hlabel : (fromLabel label used).isFilled = false → fromLabel label used = label := by
    intro hf
    rcases fromLabel_cases label used with he | ⟨m, he⟩
    · exact he
    · rw [he, isFilled_numbered] at hf
      contradiction
  unfold choose at h ⊢
  split at h
  · rename_i url
    split at h
    · rename_i hu
      simp [Field.ofText, Field.isFilled, Json.isFilled, hu.1] at h
    · rename_i hu
      rw [if_neg hu]
      refine ⟨hlabel h, ?_⟩
      rintro _ ⟨⟩
      tauto
  · exact ⟨hlabel h, by simp⟩

/-- A label that is taken gets a number, if there is no package URL to choose. -/
theorem choose_of_mem (hl : label ∈ used)
    (hp : ∀ url, purl = some url → url = "" ∨ .ofText url ∈ used) :
    ∃ k, 2 ≤ k ∧ choose label purl used = numbered label.inText k := by
  have hchoose : choose label purl used = firstFree label.inText used 2 := by
    have hlabel : fromLabel label used = firstFree label.inText used 2 := if_pos hl
    unfold choose
    split
    · rename_i url
      rw [if_neg (by have := hp url rfl; tauto), hlabel]
    · exact hlabel
  obtain ⟨k, hk, -, he, -⟩ := exists_firstFree label.inText used 2
  exact ⟨k, hk, hchoose.trans he⟩

end Refs

namespace Component

theorem nameAtVersion_settled (c : Component) : c.settled.nameAtVersion = c.nameAtVersion := rfl

/-- A component is written in the same way when its package URL has been settled. -/
theorem written_settled (c : Component) (used : List Field) :
    c.settled.written used = c.written used := by
  rw [written, nameAtVersion_settled, purlText_settled, settled_settled]
  rfl

/-- A label that does not show is the name. -/
theorem nameAtVersion_of_not_isFilled {c : Component} (h : c.nameAtVersion.isFilled = false) :
    c.nameAtVersion = c.name := by
  unfold nameAtVersion at h ⊢
  split at h
  · rename_i hv
    have hne : c.name.inText ++ "@" ++ c.version.inText ≠ "" := by
      intro he
      have hl := congrArg String.toList he
      simp at hl
    simp [Field.ofText, Field.isFilled, Json.isFilled, hne] at h
  · rename_i hv
    rw [if_neg hv]

/-- Has the component been written under its label, which does not show, for want
of anything else? -/
structure IsBlocked (c : Component) (used : List Field) : Prop where
  label : c.nameAtVersion ∈ used
  purl : ∀ url, c.purlText = some url → url = "" ∨ .ofText url ∈ used

theorem IsBlocked.cons {c : Component} {used : List Field} (h : c.IsBlocked used) (r : Field) :
    c.IsBlocked (r :: used) where
  label := List.mem_cons_of_mem r h.label
  purl url hu := (h.purl url hu).imp_right (List.mem_cons_of_mem r)

/-- Who has been given a reference that does not show is blocked from then on. -/
theorem isBlocked_of_not_isFilled {c : Component} {used : List Field}
    (h : (c.written used).ref.isFilled = false) :
    (c.written used).ref = c.nameAtVersion ∧ c.IsBlocked ((c.written used).ref :: used) := by
  obtain ⟨hl, hp⟩ := Refs.choose_of_not_isFilled h
  refine ⟨hl, ?_, fun url hu => (hp url hu).imp_right (List.mem_cons_of_mem _)⟩
  exact hl ▸ List.mem_cons_self

end Component

/-! ## §2. What is written. -/

section Writes

variable {n : Nat}

/-- **What is written from some state on**: when components have these references,
these are in use and these components are waiting, then these marks follow,
each with the component for which it stands. -/
inductive Writes (g : Graph n) :
    (Fin n → Field) → List Field → List (Fin n) → List (Fin n × Mark) → Prop where
  | done {refs : Fin n → Field} {used : List Field} : Writes g refs used [] []
  /-- A reference that shows is mentioned. -/
  | mention {refs : Fin n → Field} {used : List Field} {i : Fin n} {waiting : List (Fin n)}
      {log : List (Fin n × Mark)} (hi : (refs i).isFilled)
      (hrest : Writes g refs used waiting log) :
      Writes g refs used (i :: waiting) ((i, .ref (refs i)) :: log)
  /-- Else the component is written in full, and its children are next. -/
  | full {refs : Fin n → Field} {used : List Field} {i : Fin n} {waiting : List (Fin n)}
      {w : Written} {log : List (Fin n × Mark)} (hi : (refs i).isFilled = false)
      (hw : w = (g.component i).written used)
      (hrest : Writes g (Function.update refs i w.ref) (w.ref :: used)
        (g.children i ++ waiting) log) :
      Writes g refs used (i :: waiting) ((i, .full w (g.children i).length) :: log)

namespace Pen

/-- The state has the graph's children, and its components as they are or settled. -/
structure Keeps (g : Graph n) (pen : Pen n) : Prop where
  children : ∀ i, pen.graph.children i = g.children i
  component : ∀ i, pen.graph.component i = g.component i
    ∨ pen.graph.component i = (g.component i).settled

theorem Keeps.start (g : Graph n) : Keeps g (.start g) := ⟨fun _ => rfl, fun _ => .inl rfl⟩

/-- Settled or not, a component is written as the graph has it. -/
theorem Keeps.compose {g : Graph n} {pen : Pen n} (h : Keeps g pen) {i : Fin n}
    (hw : (g.component i).isWritable) :
    pen.compose i = .ok ((g.component i).written pen.used) := by
  rcases h.component i with hc | hc
  · rw [← hc] at hw ⊢
    exact compose_of_isWritable hw
  · rw [← Component.isWritable_settled, ← hc] at hw
    rw [compose_of_isWritable hw, hc, Component.written_settled]

theorem Keeps.record {g : Graph n} {pen : Pen n} (h : Keeps g pen) (i : Fin n)
    (used : List Field) : Keeps g (pen.record i ((g.component i).written used)) where
  children j := by
    rw [← h.children j]
    exact Graph.children_update _ _ _ _
  component j := by
    have hc : (pen.record i ((g.component i).written used)).graph.component j
        = if j = i then (g.component i).settled else pen.graph.component j :=
      Graph.component_update _ _ _ _
    rw [hc]
    split
    · rename_i hj
      exact .inr (by rw [hj])
    · exact h.component j

/-- **Where everything may be written, writing goes on to the end.** -/
theorem write_writes {g : Graph n} {P : Fin n → Prop} (hdown : ∀ i, P i → ∀ j ∈ g.children i, P j)
    (hwrite : ∀ i, P i → (g.component i).isWritable) (pen : Pen n) (waiting : List (Fin n))
    (h : Keeps g pen) (hwait : ∀ i ∈ waiting, P i) :
    ∃ log, (pen.write waiting).marks = .ok (log.map (·.2))
      ∧ Writes g pen.refOf pen.used waiting log := by
  fun_induction write pen waiting with
  | case1 pen => exact ⟨[], rfl, .done⟩
  | case2 pen i waiting hi ih =>
    obtain ⟨log, hlog, hwrites⟩ := ih h fun j hj => hwait j (List.mem_cons_of_mem _ hj)
    exact ⟨_, Outcome.prepend_ok.2 ⟨_, hlog, rfl⟩, .mention hi hwrites⟩
  | case3 pen i waiting hi e he =>
    rw [h.compose (hwrite i (hwait i List.mem_cons_self))] at he
    contradiction
  | case4 pen i waiting hi w he below ih =>
    have hP : P i := hwait i List.mem_cons_self
    rw [h.compose (hwrite i hP)] at he
    obtain rfl := Except.ok.inj he
    have hbelow : below = g.children i := h.children i
    obtain ⟨log, hlog, hwrites⟩ := ih (h.record i _) fun j hj => by
      rcases List.mem_append.1 hj with hj | hj
      · exact hdown i hP j (hbelow ▸ hj)
      · exact hwait j (List.mem_cons_of_mem _ hj)
    have hrefs : (pen.record i ((g.component i).written pen.used)).refOf
        = Function.update pen.refOf i ((g.component i).written pen.used).ref := by
      funext j
      rw [refOf_record, Function.update_apply]
    rw [hrefs, hbelow] at hwrites
    refine ⟨_, Outcome.prepend_ok.2 ⟨_, hlog, ?_⟩, .full (by simpa using hi) rfl hwrites⟩
    rw [hbelow]
    rfl

end Pen

/-! ## §3. The references that components get. -/

/-- The components written in full, each with its reference, in order. -/
def fulls (log : List (Fin n × Mark)) : List (Fin n × Field) :=
  log.filterMap fun
    | (i, .full w _) => some (i, w.ref)
    | (_, .ref _) => none

@[simp] theorem fulls_cons_full (i : Fin n) (w : Written) (arity : Nat)
    (log : List (Fin n × Mark)) : fulls ((i, .full w arity) :: log) = (i, w.ref) :: fulls log := rfl

@[simp] theorem fulls_cons_ref (i : Fin n) (r : Field) (log : List (Fin n × Mark)) :
    fulls ((i, .ref r) :: log) = fulls log := rfl

/-- The references of one component, in order. -/
def refsOf (i : Fin n) (pairs : List (Fin n × Field)) : List Field :=
  (pairs.filter (·.1 = i)).map (·.2)

theorem mem_refsOf_iff {i : Fin n} {r : Field} {pairs : List (Fin n × Field)} :
    r ∈ refsOf i pairs ↔ (i, r) ∈ pairs := by
  simp [refsOf]

theorem refsOf_cons_self (i : Fin n) (r : Field) (pairs : List (Fin n × Field)) :
    refsOf i ((i, r) :: pairs) = r :: refsOf i pairs := by
  simp [refsOf]

theorem refsOf_cons_ne {i j : Fin n} (h : j ≠ i) (r : Field) (pairs : List (Fin n × Field)) :
    refsOf i ((j, r) :: pairs) = refsOf i pairs := by
  simp [refsOf, h]

namespace Writes

variable {g : Graph n} {refs : Fin n → Field} {used : List Field} {waiting : List (Fin n)}
  {log : List (Fin n × Mark)} {i : Fin n}

/-- **No reference is given that is in use, so none is given twice.** -/
theorem fresh (h : Writes g refs used waiting log) :
    ((fulls log).map (·.2)).Nodup ∧ ∀ r ∈ (fulls log).map (·.2), r ∉ used := by
  induction h with
  | done => simp [fulls]
  | mention hi _ ih => simpa using ih
  | @full refs used i waiting w log hi hw _ ih =>
    obtain ⟨hnodup, hfresh⟩ := ih
    rw [fulls_cons_full, List.map_cons, List.nodup_cons]
    refine ⟨⟨fun hm => hfresh w.ref hm List.mem_cons_self, hnodup⟩, fun r hr => ?_⟩
    rcases List.mem_cons.1 hr with rfl | hr
    · rw [hw]
      exact Refs.choose_not_mem _ _ _
    · exact fun hm => hfresh r hr (List.mem_cons_of_mem _ hm)

/-- A component whose reference shows is not written in full again. -/
theorem refsOf_of_isFilled (h : Writes g refs used waiting log) (hi : (refs i).isFilled) :
    refsOf i (fulls log) = [] := by
  induction h with
  | done => rfl
  | mention _ _ ih => exact ih hi
  | @full refs used j waiting w log hj hw _ ih =>
    have hne : j ≠ i := by
      rintro rfl
      rw [hi] at hj
      contradiction
    rw [fulls_cons_full, refsOf_cons_ne hne]
    exact ih (by rwa [Function.update_of_ne (Ne.symm hne)])

/-- A component that is blocked is written in full once more at most, under a
numbered label. -/
theorem refsOf_of_isBlocked (h : Writes g refs used waiting log)
    (hi : (g.component i).IsBlocked used) : refsOf i (fulls log) = []
      ∨ ∃ k, 2 ≤ k
        ∧ refsOf i (fulls log) = [Refs.numbered (g.component i).nameAtVersion.inText k] := by
  induction h with
  | done => exact .inl rfl
  | mention _ _ ih => exact ih hi
  | @full refs used j waiting w log hj hw hrest ih =>
    by_cases hji : j = i
    · subst hji
      obtain ⟨k, hk, he⟩ := Refs.choose_of_mem hi.label hi.purl
      have hr : w.ref = Refs.numbered (g.component j).nameAtVersion.inText k := hw ▸ he
      -- the numbered label shows, so it is the last one
      have hlast := hrest.refsOf_of_isFilled (i := j) (by
        rw [Function.update_self, hr]
        exact Refs.isFilled_numbered _ _)
      refine .inr ⟨k, hk, ?_⟩
      rw [fulls_cons_full, refsOf_cons_self, hlast, hr]
    · rw [fulls_cons_full, refsOf_cons_ne hji]
      exact ih (hi.cons _)

/-- **A component gets no reference, or one, or its label, which does not show,
and then a numbered one.** -/
theorem refsOf_cases (h : Writes g refs used waiting log) (i : Fin n) :
    refsOf i (fulls log) = [] ∨ (∃ r, refsOf i (fulls log) = [r])
      ∨ (g.component i).nameAtVersion.isFilled = false ∧ ∃ k, 2 ≤ k
        ∧ refsOf i (fulls log) = [(g.component i).nameAtVersion,
          Refs.numbered (g.component i).nameAtVersion.inText k] := by
  induction h with
  | done => exact .inl rfl
  | mention _ _ ih => exact ih
  | @full refs used j waiting w log hj hw hrest ih =>
    rw [fulls_cons_full]
    by_cases hji : j = i
    · subst hji
      rw [refsOf_cons_self]
      refine .inr ?_
      by_cases hfill : w.ref.isFilled
      · rw [hrest.refsOf_of_isFilled (by rwa [Function.update_self])]
        exact .inl ⟨_, rfl⟩
      · have hfill : w.ref.isFilled = false := by simpa using hfill
        obtain ⟨hlabel, hblocked⟩ := Component.isBlocked_of_not_isFilled (hw ▸ hfill)
        rw [← hw] at hlabel hblocked
        rcases hrest.refsOf_of_isBlocked hblocked with hnone | ⟨k, hk, hnext⟩
        · rw [hnone]
          exact .inl ⟨_, rfl⟩
        · rw [hnext, ← hlabel]
          exact .inr ⟨hfill, k, hk, rfl⟩
    · rw [refsOf_cons_ne hji]
      exact ih

/-- Whatever waits is written in full, unless its reference shows; and so is
whatever is below a component that is written in full. -/
theorem covers (h : Writes g refs used waiting log) :
    (∀ i ∈ waiting, (refs i).isFilled ∨ refsOf i (fulls log) ≠ [])
      ∧ ∀ i r, (i, r) ∈ fulls log → ∀ j ∈ g.children i,
        (refs j).isFilled ∨ refsOf j (fulls log) ≠ [] := by
  induction h with
  | done => simp [fulls]
  | mention hi _ ih =>
    refine ⟨fun j hj => ?_, ih.2⟩
    rcases List.mem_cons.1 hj with rfl | hj
    · exact .inl hi
    · exact ih.1 j hj
  | @full refs used i waiting w log hi hw _ ih =>
    obtain ⟨hwait, hbelow⟩ := ih
    -- a reference that shows later on is there now, or is the new one
    have hback : ∀ j, (Function.update refs i w.ref j).isFilled ∨ refsOf j (fulls log) ≠ [] →
        (refs j).isFilled ∨ refsOf j ((i, w.ref) :: fulls log) ≠ [] := by
      intro j hj
      by_cases hij : i = j
      · subst hij
        rw [refsOf_cons_self]
        exact .inr (by simp)
      · rwa [Function.update_of_ne (Ne.symm hij), ← refsOf_cons_ne hij w.ref] at hj
    rw [fulls_cons_full]
    refine ⟨fun j hj => ?_, fun k r hk j hj => ?_⟩
    · rcases List.mem_cons.1 hj with rfl | hj
      · rw [refsOf_cons_self]
        exact .inr (by simp)
      · exact hback j (hwait j (List.mem_append_right _ hj))
    · rcases List.mem_cons.1 hk with he | hk
      · obtain ⟨rfl, -⟩ := Prod.mk.inj he
        exact hback j (hwait j (List.mem_append_left _ hj))
      · exact hback j (hbelow k r hk j hj)

/-- What is written stands for what was waiting, and for what is below. -/
theorem down {P : Fin n → Prop} (h : Writes g refs used waiting log)
    (hdown : ∀ i, P i → ∀ j ∈ g.children i, P j) (hwait : ∀ i ∈ waiting, P i) :
    ∀ q ∈ log, P q.1 := by
  induction h with
  | done => simp
  | mention _ _ ih =>
    rw [List.forall_mem_cons] at hwait ⊢
    exact ⟨hwait.1, ih hwait.2⟩
  | full _ _ _ ih =>
    rw [List.forall_mem_cons] at hwait ⊢
    refine ⟨hwait.1, ih fun j hj => ?_⟩
    rcases List.mem_append.1 hj with hj | hj
    · exact hdown _ hwait.1 j hj
    · exact hwait.2 j hj

/-- A mention gives a reference that shows and that the component has, or had. -/
theorem mentioned (h : Writes g refs used waiting log) {r : Field} (hr : (i, .ref r) ∈ log) :
    (refs i).isFilled ∧ r = refs i ∨ r ∈ refsOf i (fulls log) := by
  induction h with
  | done => contradiction
  | mention hi _ ih =>
    rcases List.mem_cons.1 hr with he | hr
    · cases he
      exact .inl ⟨hi, rfl⟩
    · exact ih hr
  | @full refs used j waiting w log _ _ _ ih =>
    rw [fulls_cons_full]
    rcases List.mem_cons.1 hr with he | hr
    · cases he
    · by_cases hji : j = i
      · subst hji
        rw [refsOf_cons_self]
        rcases ih hr with ⟨-, rfl⟩ | hm
        · rw [Function.update_self]
          exact .inr List.mem_cons_self
        · exact .inr (List.mem_cons_of_mem _ hm)
      · rw [refsOf_cons_ne hji]
        rw [Function.update_of_ne (Ne.symm hji)] at ih
        exact ih hr

/-- A component in full is written as it is, with the number of its children. -/
theorem shown (h : Writes g refs used waiting log) {w : Written} {arity : Nat}
    (hw : (i, .full w arity) ∈ log) :
    w.shown = (g.component i).shown ∧ arity = (g.children i).length := by
  induction h with
  | done => contradiction
  | mention _ _ ih =>
    rcases List.mem_cons.1 hw with he | hw
    · cases he
    · exact ih hw
  | full _ hwritten _ ih =>
    rcases List.mem_cons.1 hw with he | hw
    · cases he
      rw [hwritten, Component.shown_written]
      exact ⟨rfl, rfl⟩
    · exact ih hw

/-- There is a mark for all that was waiting, and one for each child of each
component that is written in full. -/
theorem length_log (h : Writes g refs used waiting log) :
    log.length = waiting.length + ((fulls log).map fun q => (g.children q.1).length).sum := by
  induction h with
  | done => rfl
  | mention _ _ ih =>
    rw [fulls_cons_ref, List.length_cons, List.length_cons, ih]
    omega
  | full _ _ _ ih =>
    simp only [fulls_cons_full, List.length_cons, List.map_cons, List.sum_cons,
      List.length_append] at ih ⊢
    omega

end Writes

end Writes

end ComponentGraph
