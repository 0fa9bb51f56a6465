/-
  ComponentGraph.Proofs.View.Unnamed
  ────────────────────────────────
  **GRAPHS WITH UNNAMED COMPONENTS.**

  A name may be empty or missing, and so may a reference then.  The document
  of such a graph still ends, and its objects can be told apart: below a
  component in full stand its children, so each object stands for one
  component (`Graph.assign`).

      Graph.WrittenIn   — what it is for a document to write a graph
      Writes.reads      — the objects of a document are read as its marks
      document_writes   — the document of every graph writes it
-/
import ComponentGraph.Proofs.Graph.Places
import ComponentGraph.Proofs.View.Repeats
import Mathlib.Algebra.BigOperators.Ring.Finset
import Mathlib.Algebra.Order.BigOperators.Group.Finset
import Mathlib.Algebra.Order.Ring.Nat

namespace ComponentGraph

/-! ## §1. For which components objects stand. -/

namespace Graph

variable {n : Nat}

/-- The objects of a document, each with the component for which it stands, when
these components are waiting. -/
def assign (g : Graph n) : List (Fin n) → List Item → List (Fin n × Item)
  | i :: waiting, .full ref shown below :: items =>
    (i, .full ref shown below) :: g.assign (g.children i ++ waiting) items
  | i :: waiting, .mention ref :: items => (i, .mention ref) :: g.assign waiting items
  | _, _ => []

/-- The objects of a graph's document, each with its component. -/
def objects (g : Graph n) (root : Fin n) (top : Json) : List (Fin n × Item) :=
  g.assign [root] top.objects

/-- The components that a document writes in full, each with its reference. -/
def written (g : Graph n) (root : Fin n) (top : Json) : List (Fin n × Field) :=
  (g.objects root top).filterMap fun q => q.2.own?.map (q.1, ·)

/-- The components that a document writes in full twice. -/
def twice (g : Graph n) (root : Fin n) (top : Json) : Finset (Fin n) :=
  Finset.univ.filter fun i => (refsOf i (g.written root top)).length = 2

/-- **A document writes a graph**, whose names may be empty or missing. -/
structure WrittenIn (g : Graph n) (root : Fin n) (top : Json) : Prop where
  /-- Every object stands for a component. -/
  all : (g.objects root top).map (·.2) = top.objects
  /-- What is in full is a component that can be reached, above an object for each
  of its children. -/
  full : ∀ i ref shown below, (i, .full ref shown below) ∈ g.objects root top →
    g.Reaches [root] i ∧ shown = (g.component i).shown ∧ below.length = (g.children i).length
  /-- A mention gives a reference under which its component was written. -/
  mention : ∀ i ref, (i, .mention ref) ∈ g.objects root top → (i, ref) ∈ g.written root top
  /-- No two components in full have one reference, and one at most has none. -/
  distinct : ((g.written root top).map (·.2)).Nodup
  /-- What can be reached is written once; or twice, first under its empty or missing
  name, and then under a numbered one. -/
  copies : ∀ i, g.Reaches [root] i → (∃ ref, refsOf i (g.written root top) = [ref])
    ∨ ∃ (ref : Field) (k : Nat), (ref = none ∨ ref = Field.ofText "")
      ∧ (g.component i).name = ref ∧ 2 ≤ k
      ∧ refsOf i (g.written root top) = [ref, Field.ofText (ref.inText ++ "#" ++ Nat.repr k)]
  /-- Two components at most are written twice. -/
  twice_le_two : (g.twice root top).card ≤ 2
  /-- If all names are texts, there is one at most. -/
  twice_le_one : (∀ i, g.Reaches [root] i → ∃ s, (g.component i).name = .ofText s) →
    (g.twice root top).card ≤ 1
  /-- There is an object for the root, and one for each child of each component in
  full. -/
  length_objects : top.objects.length
    = 1 + ((g.written root top).map fun q => (g.children q.1).length).sum
  /-- So there are not many of them. -/
  length_le : top.objects.length ≤ 1 + 2 * ∑ i with g.Reaches [root] i, (g.children i).length

end Graph

/-! ## §2. Reading what was written. -/

section Reads

variable {n : Nat}

/-- An object is read from a mark; both stand for one component. -/
inductive Reads : Fin n × Mark → Fin n × Item → Prop where
  | full {i : Fin n} {w : Written} {below : List Field} :
    Reads (i, .full w below.length) (i, .full w.ref w.shown below)
  | mention {i : Fin n} {r : Field} : Reads (i, .ref r) (i, .mention r)

/-- The objects of an entry in full: the entry itself, and those below it. -/
theorem Entry.objects_full (w : Written) (below : List Entry) :
    (Entry.full w below).toJson.objects
      = .full w.ref w.shown ((below.map Entry.toJson).map Json.reference)
        :: (below.map Entry.toJson).flatMap Json.objects := by
  have h := congrArg (List.map (·.2)) (Entry.outline_toJson_full 0 w below)
  rw [Json.map_outline, List.map_cons, List.map_flatMap] at h
  simp only [Json.map_outline] at h
  exact h

variable {g : Graph n} {refs : Fin n → Field} {used : List Field} {waiting : List (Fin n)}
  {log : List (Fin n × Mark)}

/-- **The objects of what was written are read from its marks**, and stand for
what was waiting. -/
theorem Writes.reads (h : Writes g refs used waiting log) :
    (Mark.nest (log.map (·.2))).length = waiting.length
      ∧ ∃ items, ((Mark.nest (log.map (·.2))).map Entry.toJson).flatMap Json.objects = items
        ∧ List.Forall₂ Reads log (g.assign waiting items)
        ∧ (g.assign waiting items).map (·.2) = items := by
  -- from the end: each mark puts its entry before those that follow it
  induction h with
  | done =>
    have hnil : g.assign [] [] = [] := by simp [Graph.assign]
    refine ⟨rfl, [], rfl, ?_, ?_⟩ <;> rw [hnil]
    · exact .nil
    · rfl
  | @mention refs used i waiting log hi _ ih =>
    obtain ⟨hlength, items, hitems, hreads, hall⟩ := ih
    obtain ⟨j, hj⟩ := Option.isSome_iff_exists.1 (Field.isSome_of_isFilled hi)
    refine ⟨congrArg (· + 1) hlength, .mention (refs i) :: items, ?_, ?_, ?_⟩
    · rw [← hitems, hj]
      rfl
    · rw [Graph.assign]
      exact .cons .mention hreads
    · rw [Graph.assign, List.map_cons, hall]
  | @full refs used i waiting w log hi hw _ ih =>
    obtain ⟨hlength, items, hitems, hreads, hall⟩ := ih
    rw [List.length_append] at hlength
    -- the first entries stand for the children, the others for what was waiting
    obtain ⟨below, rest, hnest, hbelow⟩ : ∃ below rest, Mark.nest (log.map (·.2)) = below ++ rest
        ∧ below.length = (g.children i).length :=
      ⟨_, _, (List.take_append_drop (g.children i).length _).symm, by
        rw [List.length_take]
        omega⟩
    have hplace : Mark.nest (((i, Mark.full w (g.children i).length) :: log).map (·.2))
        = .full w below :: rest := by
      show (Mark.full w (g.children i).length).place (Mark.nest (log.map (·.2))) = _
      rw [hnest, ← hbelow, Mark.place, List.take_left, List.drop_left]
    have hcount : ((below.map Entry.toJson).map Json.reference).length = (g.children i).length := by
      rw [List.length_map, List.length_map, hbelow]
    rw [hnest] at hlength hitems
    rw [hplace]
    refine ⟨?_, .full w.ref w.shown ((below.map Entry.toJson).map Json.reference) :: items,
      ?_, ?_, ?_⟩
    · rw [List.length_append] at hlength
      rw [List.length_cons, List.length_cons]
      omega
    · rw [List.map_cons, List.flatMap_cons, Entry.objects_full, List.cons_append,
        ← List.flatMap_append, ← List.map_append, hitems]
    · rw [Graph.assign, ← hcount]
      exact .cons .full hreads
    · rw [Graph.assign, List.map_cons, hall]

/-- What is read in full was written in full, under the same reference. -/
theorem fulls_of_reads {objects : List (Fin n × Item)} (h : List.Forall₂ Reads log objects) :
    (objects.filterMap fun q => q.2.own?.map (q.1, ·)) = fulls log := by
  induction h with
  | nil => rfl
  | cons hq _ ih =>
    cases hq with
    | full => exact congrArg (_ :: ·) ih
    | mention => exact ih

/-- Every object is read from a mark. -/
theorem exists_reads {objects : List (Fin n × Item)} (h : List.Forall₂ Reads log objects)
    {q : Fin n × Item} (hq : q ∈ objects) : ∃ p ∈ log, Reads p q := by
  induction h with
  | nil => contradiction
  | cons hp _ ih =>
    rcases List.mem_cons.1 hq with rfl | hq
    · exact ⟨_, List.mem_cons_self, hp⟩
    · obtain ⟨p, hp, hr⟩ := ih hq
      exact ⟨p, List.mem_cons_of_mem _ hp, hr⟩

end Reads

/-! ## §3. The document. -/

/-- Components with references from a small set are few, if no two of them share
one. -/
theorem card_le_of_refs {n : Nat} {pairs : List (Fin n × Field)} (hd : (pairs.map (·.2)).Nodup)
    {few : Finset (Fin n)} (among : Finset Field)
    (h : ∀ i ∈ few, ∃ r ∈ among, (i, r) ∈ pairs) : few.card ≤ among.card := by
  choose! r hr hmem using h
  refine Finset.card_le_card_of_injOn r hr fun i hi j hj he => ?_
  exact congrArg Prod.fst (List.inj_on_of_nodup_map hd (hmem i hi) (hmem j hj) he)

namespace Graph

variable {n : Nat} {g : Graph n} {root : Fin n} {log : List (Fin n × Mark)}

/-- At the start, no component has a reference. -/
def unwritten : Fin n → Field := fun _ => none

/-- What can be reached is written. -/
theorem refsOf_ne_nil (h : Writes g unwritten [] [root] log) {i : Fin n}
    (hi : g.Reaches [root] i) : refsOf i (fulls log) ≠ [] := by
  obtain ⟨hwait, hbelow⟩ := h.covers
  have hnone : ∀ j : Fin n, (unwritten j).isFilled ≠ true := fun _ => by
    simp [unwritten, Field.isFilled]
  refine hi.closed (fun j hj => (hwait j hj).resolve_left (hnone j)) fun j hj k hk => ?_
  obtain ⟨r, hr⟩ := List.exists_mem_of_ne_nil _ hj
  exact (hbelow j r (mem_refsOf_iff.1 hr) k hk).resolve_left (hnone k)

/-- What is written can be reached. -/
theorem reaches_of_writes (h : Writes g unwritten [] [root] log) :
    ∀ q ∈ log, g.Reaches [root] q.1 :=
  h.down (fun _ hi _ hj => .child hi hj) fun _ hi => .start hi

theorem reaches_of_mem_fulls (h : Writes g unwritten [] [root] log) {q : Fin n × Field}
    (hq : q ∈ fulls log) : g.Reaches [root] q.1 := by
  obtain ⟨⟨i, mark⟩, hmem, hmark⟩ := List.mem_filterMap.1 hq
  cases mark with
  | full w arity =>
    obtain rfl := Option.some.inj hmark
    exact reaches_of_writes h _ hmem
  | ref r => contradiction

/-- A component whose name is a text, or missing, gets one reference, or its empty
or missing name and a numbered one. -/
theorem copies_of_writes (h : Writes g unwritten [] [root] log) {i : Fin n}
    (hi : g.Reaches [root] i)
    (hname : (g.component i).name = none ∨ ∃ s, (g.component i).name = .ofText s) :
    (∃ ref, refsOf i (fulls log) = [ref])
      ∨ ∃ (ref : Field) (k : Nat), (ref = none ∨ ref = Field.ofText "")
        ∧ (g.component i).name = ref ∧ 2 ≤ k
        ∧ refsOf i (fulls log) = [ref, Field.ofText (ref.inText ++ "#" ++ Nat.repr k)] := by
  rcases h.refsOf_cases i with hnone | hone | ⟨hlabel, k, hk, hrefs⟩
  · exact absurd hnone (refsOf_ne_nil h hi)
  · exact .inl hone
  · have hn := Component.nameAtVersion_of_not_isFilled hlabel
    rw [hn] at hlabel hrefs
    refine .inr ⟨(g.component i).name, k, ?_, rfl, hk, hrefs⟩
    rcases hname with hname | ⟨s, hname⟩
    · exact .inl hname
    · rw [hname] at hlabel ⊢
      have hs : s = "" := by simpa [Field.ofText, Field.isFilled, Json.isFilled] using hlabel
      exact .inr (congrArg _ hs)

/-- There are at most two marks in full for each component. -/
theorem sum_children_le (h : Writes g unwritten [] [root] log)
    (htwo : ∀ i, (refsOf i (fulls log)).length ≤ 2) :
    ((fulls log).map fun q => (g.children q.1).length).sum
      ≤ 2 * ∑ i with g.Reaches [root] i, (g.children i).length := by
  have hcount : ∀ i, ((fulls log).map (·.1)).count i ≤ 2 := by
    intro i
    refine le_trans (le_of_eq ?_) (htwo i)
    rw [List.count, List.countP_map, refsOf, List.length_map, List.countP_eq_length_filter]
    rfl
  have hsub : ((fulls log).map (·.1)).toFinset
      ⊆ Finset.univ.filter fun i => g.Reaches [root] i := by
    intro i hi
    obtain ⟨q, hq, rfl⟩ := List.mem_map.1 (List.mem_toFinset.1 hi)
    exact Finset.mem_filter.2 ⟨Finset.mem_univ _, reaches_of_mem_fulls h hq⟩
  calc ((fulls log).map fun q => (g.children q.1).length).sum
      = (((fulls log).map (·.1)).map fun i => (g.children i).length).sum := by
        rw [List.map_map]; rfl
    _ = ∑ i ∈ ((fulls log).map (·.1)).toFinset,
          ((fulls log).map (·.1)).count i • (g.children i).length :=
        Finset.sum_list_map_count _ _
    _ ≤ ∑ i ∈ ((fulls log).map (·.1)).toFinset, 2 * (g.children i).length := by
        apply Finset.sum_le_sum
        intro i _
        exact Nat.mul_le_mul_right _ (hcount i)
    _ ≤ ∑ i with g.Reaches [root] i, 2 * (g.children i).length :=
        Finset.sum_le_sum_of_subset hsub
    _ = 2 * ∑ i with g.Reaches [root] i, (g.children i).length := by rw [Finset.mul_sum]

/-- **What was written writes the graph.** -/
theorem writtenIn_of_writes {top : Json} (h : Writes g unwritten [] [root] log)
    (hreads : List.Forall₂ Reads log (g.objects root top))
    (hall : (g.objects root top).map (·.2) = top.objects)
    (hname : ∀ i, g.Reaches [root] i →
      (g.component i).name = none ∨ ∃ s, (g.component i).name = .ofText s) :
    g.WrittenIn root top := by
  have hwritten : g.written root top = fulls log := fulls_of_reads hreads
  have hnodup : ((g.written root top).map (·.2)).Nodup := hwritten ▸ h.fresh.1
  have hcopies := fun i hi => copies_of_writes h hi (hname i hi)
  -- whoever is written twice is written under a name that does not show
  have htwice : ∀ i ∈ g.twice root top, g.Reaches [root] i ∧ ∃ ref,
      (ref = none ∨ ref = Field.ofText "") ∧ (g.component i).name = ref
        ∧ (i, ref) ∈ g.written root top := by
    intro i hi
    have hlength : (refsOf i (g.written root top)).length = 2 := (Finset.mem_filter.1 hi).2
    obtain ⟨r, hr⟩ := List.exists_mem_of_length_pos (by rw [hlength]; decide)
    have hreach : g.Reaches [root] i := by
      rw [hwritten, mem_refsOf_iff] at hr
      exact reaches_of_mem_fulls h hr
    refine ⟨hreach, ?_⟩
    rw [hwritten] at hlength ⊢
    rcases hcopies i hreach with ⟨ref, hrefs⟩ | ⟨ref, k, hblank, hn, -, hrefs⟩
    · rw [hrefs] at hlength
      simp at hlength
    · exact ⟨ref, hblank, hn, mem_refsOf_iff.1 (by rw [hrefs]; exact List.mem_cons_self)⟩
  have htwo : ∀ i, (refsOf i (fulls log)).length ≤ 2 := by
    intro i
    rcases h.refsOf_cases i with hr | ⟨r, hr⟩ | ⟨-, k, -, hr⟩ <;> rw [hr] <;> simp
  have hlength : top.objects.length
      = 1 + ((fulls log).map fun q => (g.children q.1).length).sum := by
    rw [← hall, List.length_map, ← hreads.length_eq, h.length_log]
    rfl
  exact {
    all := hall
    full := by
      intro i ref shown below hmem
      obtain ⟨⟨j, mark⟩, hlog, hread⟩ := exists_reads hreads hmem
      cases hread
      obtain ⟨hshown, harity⟩ := h.shown hlog
      exact ⟨reaches_of_writes h _ hlog, hshown, harity⟩
    mention := by
      intro i ref hmem
      obtain ⟨⟨j, mark⟩, hlog, hread⟩ := exists_reads hreads hmem
      cases hread
      rw [hwritten]
      rcases h.mentioned hlog with ⟨hfill, -⟩ | hr
      · contradiction
      · exact mem_refsOf_iff.1 hr
    distinct := hnodup
    copies := by
      rw [hwritten]
      exact hcopies
    twice_le_two := by
      refine (card_le_of_refs hnodup {none, Field.ofText ""} ?_).trans Finset.card_le_two
      intro i hi
      obtain ⟨-, ref, hblank, -, hmem⟩ := htwice i hi
      exact ⟨ref, by simpa using hblank, hmem⟩
    twice_le_one := by
      intro htext
      refine (card_le_of_refs hnodup {Field.ofText ""} ?_).trans_eq
        (Finset.card_singleton _)
      intro i hi
      obtain ⟨hreach, ref, hblank, hn, hmem⟩ := htwice i hi
      obtain ⟨s, hs⟩ := htext i hreach
      have hne : ref ≠ none := by
        rintro rfl
        rw [hs] at hn
        contradiction
      exact ⟨ref, Finset.mem_singleton.2 (hblank.resolve_left hne), hmem⟩
    length_objects := by rw [hwritten, hlength]
    length_le := by
      have hsum := sum_children_le h htwo
      omega }

/-- **The document of every graph writes it**, if names are texts or missing, and
all package URLs can be written: even without names writing ends, and so does
the search for a free number. -/
theorem document_writes (g : Graph n) (root : Fin n) (timestamp : String)
    (hname : ∀ i, g.Reaches [root] i →
      (g.component i).name = none ∨ ∃ s, (g.component i).name = .ofText s)
    (hpurl : ∀ i, g.Reaches [root] i → ∀ p, (g.component i).purl = some p → ∃ s, p.text? = .ok s) :
    (∃ doc top, g.document root timestamp = .ok doc ∧ doc.get? "component" = some top
      ∧ g.WrittenIn root top)
    ∧ ∀ label used, ∃ k, 2 ≤ k ∧ k ≤ 2 + used.length
      ∧ Refs.firstFree label used 2 = Refs.numbered label k ∧ Refs.numbered label k ∉ used
      ∧ ∀ j, 2 ≤ j → j < k → Refs.numbered label j ∈ used := by
  constructor
  · have hwrite : ∀ i, g.Reaches [root] i → (g.component i).isWritable :=
      fun i hi => Component.isWritable_iff.2 (hpurl i hi)
    obtain ⟨log, hlog, hwrites⟩ := Pen.write_writes (fun _ hi _ hj => .child hi hj) hwrite
      (.start g) [root] (.start g) fun _ hi => .start hi
    have hrefs : (Pen.start g).refOf = unwritten := funext (Pen.refOf_start g)
    rw [hrefs] at hwrites
    obtain ⟨hlength, items, hitems, hreads, hall⟩ := hwrites.reads
    obtain ⟨e, he⟩ := List.length_eq_one_iff.1 hlength
    have hobjects : e.toJson.objects = items := by
      rw [← hitems, he]
      simp
    have hentry : g.entry root = .ok e := by
      rw [entry, Pen.Outcome.entry, marks, hlog]
      show Except.ok ((Mark.nest (log.map (·.2))).head?.getD default) = _
      rw [he]
      rfl
    rw [← hobjects] at hreads hall
    refine ⟨ComponentGraph.document timestamp e, e.toJson, ?_, rfl,
      writtenIn_of_writes hwrites hreads hall hname⟩
    rw [Graph.document, hentry]
    rfl
  · intro label used
    obtain ⟨k, hlow, hhigh, he, hbelow⟩ := Refs.exists_firstFree label used 2
    exact ⟨k, hlow, hhigh, he, he ▸ Refs.firstFree_not_mem label used 2, hbelow⟩

/-- A graph in which the root has an empty name and one of its children has none;
both lie on cycles, and a third component is named like a numbered reference. -/
def unnamed : Graph 3 where
  nodes := #v[
    ⟨{ name := .ofText "" }, [0, 1, 2, 0]⟩,
    ⟨{ name := none }, [1, 0, 2]⟩,
    ⟨{ name := .ofText "#2" }, []⟩]

theorem unnamed_document_writes :
    (∃ doc top, unnamed.document 0 "2024-01-01T00:00:00.000Z" = .ok doc
      ∧ doc.get? "component" = some top ∧ unnamed.WrittenIn 0 top)
    ∧ ∀ label used, ∃ k, 2 ≤ k ∧ k ≤ 2 + used.length
      ∧ Refs.firstFree label used 2 = Refs.numbered label k ∧ Refs.numbered label k ∉ used
      ∧ ∀ j, 2 ≤ j → j < k → Refs.numbered label j ∈ used := by
  have hname : ∀ i, (unnamed.component i).name = none
      ∨ ∃ s, (unnamed.component i).name = .ofText s := fun
    | 0 => .inr ⟨"", rfl⟩
    | 1 => .inl rfl
    | 2 => .inr ⟨"#2", rfl⟩
  have hpurl : ∀ i, (unnamed.component i).purl = none := by decide
  exact unnamed.document_writes 0 "2024-01-01T00:00:00.000Z" (fun i _ => hname i)
    fun i _ p hp => absurd hp (by simp [hpurl i])

end Graph

end ComponentGraph
