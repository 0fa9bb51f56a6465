/-
  ComponentGraph.Proofs.View.Stability
  ────────────────────────────────
  **WRITING TWICE GIVES THE SAME DOCUMENT.**

  Writing settles the package URLs that it comes to, so it leaves another graph
  than it found.  But a component is written in the same way when it has been
  settled before (`Pen.compose_congr`), so the references that are compared
  with each other are the same ones, whichever components that was:

      Pen.write_marks_of_keeps  — what is settled beforehand does not matter
      Graph.marks_again         — the second time, nothing is left to settle
      Writes.eq_written         — what stands in the document of a component
                                  depends on the references before it
-/
import ComponentGraph.Proofs.View.Unnamed

namespace ComponentGraph

namespace Pen

variable {n : Nat} {g : Graph n} {pen pen' : Pen n} {i : Fin n} {waiting : List (Fin n)}

/-! ## §1. One component. -/

/-- Have both states given the same references?  Their graphs may differ. -/
structure SameRefs (pen pen' : Pen n) : Prop where
  refs : pen'.refs = pen.refs
  used : pen'.used = pen.used

theorem SameRefs.refOf (h : SameRefs pen pen') (i : Fin n) : pen'.refOf i = pen.refOf i := by
  rw [Pen.refOf, Pen.refOf, h.refs]

theorem SameRefs.record (h : SameRefs pen pen') (i : Fin n) (w : Written) :
    SameRefs (pen.record i w) (pen'.record i w) where
  refs := by rw [Pen.record, Pen.record, h.refs]
  used := by rw [Pen.record, Pen.record, h.used]

theorem Keeps.settled (h : Keeps g pen) (i : Fin n) :
    (pen.graph.component i).settled = (g.component i).settled := by
  rcases h.component i with hc | hc
  · rw [hc]
  · rw [hc, Component.settled_settled]

theorem Keeps.trans (h : Keeps g pen) (h' : Keeps pen.graph pen') : Keeps g pen' where
  children i := (h'.children i).trans (h.children i)
  component i := by
    rcases h'.component i with hc | hc
    · rw [hc]
      exact h.component i
    · rw [hc, h.settled i]
      exact .inr rfl

/-- **Of a component, writing sees only what is left when it is settled.** -/
theorem compose_congr (hc : (pen'.graph.component i).settled = (pen.graph.component i).settled)
    (hu : pen'.used = pen.used) : pen'.compose i = pen.compose i := by
  have hwritable : (pen'.graph.component i).isWritable = (pen.graph.component i).isWritable := by
    rw [← Component.isWritable_settled, hc, Component.isWritable_settled]
  have hwritten : (pen'.graph.component i).written pen'.used
      = (pen.graph.component i).written pen.used := by
    rw [← Component.written_settled, hc, Component.written_settled, hu]
  rcases compose_cases pen i with ⟨h, hcompose⟩ | ⟨h, hcompose⟩
  · rw [hcompose, compose_of_isWritable (hwritable.trans h), hwritten]
  · rw [hcompose, compose_of_not_isWritable (by rwa [hwritable])]

/-- What is recorded of a component is that it is settled. -/
theorem graph_record {w : Written} (h : pen.compose i = .ok w) :
    (pen.record i w).graph = pen.graph.update i Component.settled := by
  rcases compose_cases pen i with ⟨-, hcompose⟩ | ⟨-, hcompose⟩
  · rw [hcompose] at h
    obtain rfl := Except.ok.inj h
    rfl
  · rw [hcompose] at h
    contradiction

theorem keeps_update (hg : pen'.graph = pen.graph.update i Component.settled) :
    Keeps pen.graph pen' where
  children j := by rw [hg, Graph.children_update]
  component j := by
    rw [hg, Graph.component_update]
    split
    · rename_i hj
      exact .inr (by rw [hj])
    · exact .inl rfl

/-- One component more is settled in both graphs. -/
theorem Keeps.update {before after : Pen n} (h : Keeps pen.graph pen')
    (hbefore : before.graph = pen.graph.update i Component.settled)
    (hafter : after.graph = pen'.graph.update i Component.settled) :
    Keeps before.graph after where
  children j := by
    rw [hbefore, hafter, Graph.children_update, Graph.children_update, h.children]
  component j := by
    rw [hbefore, hafter, Graph.component_update, Graph.component_update]
    split
    · exact .inl (h.settled i)
    · exact h.component j

/-! ## §2. The first component that is waiting. -/

theorem write_cons_ref (hi : (pen.refOf i).isFilled) :
    pen.write (i :: waiting) = (pen.write waiting).prepend (.ref (pen.refOf i)) := by
  rw [write, if_pos hi]

theorem write_cons_error (hi : ¬ (pen.refOf i).isFilled) {e : PurlError}
    (he : pen.compose i = .error e) :
    pen.write (i :: waiting) = ⟨.error e, pen.graph.update i Component.settled⟩ := by
  rw [write, if_neg hi]
  split
  · rename_i e' he'
    rw [he'] at he
    rw [Except.error.inj he]
  · rename_i w hw
    rw [hw] at he
    contradiction

theorem write_cons_full (hi : ¬ (pen.refOf i).isFilled) {w : Written}
    (hw : pen.compose i = .ok w) :
    pen.write (i :: waiting)
      = ((pen.record i w).write (pen.graph.children i ++ waiting)).prepend
        (.full w (pen.graph.children i).length) := by
  rw [write, if_neg hi]
  split
  · rename_i e he
    rw [he] at hw
    contradiction
  · rename_i w' hw'
    rw [hw'] at hw
    rw [Except.ok.inj hw]

/-! ## §3. Whole runs. -/

/-- **What is settled beforehand does not matter**: the same is written. -/
theorem write_marks_of_keeps (pen pen' : Pen n) (waiting : List (Fin n))
    (hkeeps : Keeps pen.graph pen') (hsame : SameRefs pen pen') :
    (pen'.write waiting).marks = (pen.write waiting).marks := by
  -- both runs come to the same component, with the same references in use
  fun_induction write pen waiting generalizing pen' with
  | case1 pen => rw [write]
  | case2 pen i waiting hi ih =>
    have href := hsame.refOf i
    rw [write_cons_ref (href ▸ hi), href, Outcome.prepend, Outcome.prepend, ih pen' hkeeps hsame]
  | case3 pen i waiting hi e he =>
    have he' : pen'.compose i = .error e := (compose_congr (hkeeps.settled i) hsame.used).trans he
    rw [write_cons_error (hsame.refOf i ▸ hi) he']
  | case4 pen i waiting hi w hw below ih =>
    have hw' : pen'.compose i = .ok w := (compose_congr (hkeeps.settled i) hsame.used).trans hw
    have hnext : Keeps (pen.record i w).graph (pen'.record i w) :=
      hkeeps.update (graph_record hw) (graph_record hw')
    rw [write_cons_full (hsame.refOf i ▸ hi) hw', hkeeps.children, Outcome.prepend, Outcome.prepend,
      ih _ hnext (hsame.record i w)]

/-- The writing settles components, and does nothing else to the graph. -/
theorem keeps_write (hgraph : pen'.graph = (pen.write waiting).graph) : Keeps pen.graph pen' := by
  fun_induction write pen waiting with
  | case1 pen => exact ⟨fun i => by rw [hgraph], fun i => .inl (by rw [hgraph])⟩
  | case2 pen i waiting hi ih => exact ih hgraph
  | case3 pen i waiting hi e he => exact keeps_update hgraph
  | case4 pen i waiting hi w hw below ih => exact (keeps_update (graph_record hw)).trans (ih hgraph)

end Pen

/-- A component that is settled already stays as it is. -/
theorem Graph.update_settled {n : Nat} {g : Graph n} {i : Fin n} {c : Component}
    (h : g.component i = c.settled) : g.update i Component.settled = g := by
  have hnode : (⟨(g.component i).settled, g.children i⟩ : Node n) = g.nodes[i] := by
    rw [h, Component.settled_settled, ← h]
    rfl
  show (⟨g.nodes.set i.val ⟨(g.component i).settled, g.children i⟩ i.isLt⟩ : Graph n) = g
  rw [hnode]
  exact congrArg Graph.mk (Vector.set_getElem_self _)

namespace Pen

/-- **Writing again does the same**, and leaves the graph as it is. -/
theorem write_again {n : Nat} (pen pen' : Pen n) (waiting : List (Fin n))
    (hgraph : pen'.graph = (pen.write waiting).graph) (hsame : SameRefs pen pen') :
    pen'.write waiting = pen.write waiting := by
  fun_induction write pen waiting generalizing pen' with
  | case1 pen => rw [write, hgraph]
  | case2 pen i waiting hi ih =>
    have href := hsame.refOf i
    rw [write_cons_ref (href ▸ hi), href, ih pen' hgraph hsame]
  | case3 pen i waiting hi e he =>
    have hkeeps : Keeps pen.graph pen' := keeps_update hgraph
    have he' : pen'.compose i = .error e := (compose_congr (hkeeps.settled i) hsame.used).trans he
    have hcomponent : pen'.graph.component i = (pen.graph.component i).settled := by
      rw [hgraph, Graph.component_update, if_pos rfl]
    rw [write_cons_error (hsame.refOf i ▸ hi) he', Graph.update_settled hcomponent, hgraph]
  | case4 pen i waiting hi w hw below ih =>
    -- the component is settled now, and whatever follows leaves it so
    have hrest : Keeps (pen.record i w).graph pen' := keeps_write hgraph
    have hkeeps : Keeps pen.graph pen' := (keeps_update (graph_record hw)).trans hrest
    have hw' : pen'.compose i = .ok w := (compose_congr (hkeeps.settled i) hsame.used).trans hw
    have hcomponent : pen'.graph.component i = (pen.graph.component i).settled := by
      have hc : (pen.record i w).graph.component i = (pen.graph.component i).settled := by
        rw [graph_record hw, Graph.component_update, if_pos rfl]
      rcases hrest.component i with h | h
      · rw [h, hc]
      · rw [h, hc, Component.settled_settled]
    have hupdate : (pen'.record i w).graph = pen'.graph :=
      (graph_record hw').trans (Graph.update_settled hcomponent)
    rw [write_cons_full (hsame.refOf i ▸ hi) hw', hkeeps.children,
      ih _ (hupdate.trans hgraph) (hsame.record i w)]

end Pen

/-! ## §4. References that are package URLs. -/

/-- The written form of a package URL is the reference just if it is free. -/
theorem Refs.choose_eq_iff {label : Field} {used : List Field} {s : String} (hs : s ≠ "") :
    choose label (some s) used = .ofText s ↔ Field.ofText s ∉ used := by
  constructor
  · intro h
    exact h ▸ choose_not_mem label (some s) used
  · intro h
    exact if_pos ⟨hs, h⟩

/-- **A component is written with the references of those before it in use.** -/
theorem Writes.eq_written {n : Nat} {g : Graph n} {refs : Fin n → Field} {used : List Field}
    {waiting : List (Fin n)} {log before after : List (Fin n × Mark)} {i : Fin n} {w : Written}
    {arity : Nat} (h : Writes g refs used waiting log)
    (hlog : log = before ++ (i, .full w arity) :: after) :
    w = (g.component i).written (((fulls before).map (·.2)).reverse ++ used) := by
  induction h generalizing before with
  | done => exact absurd hlog.symm (by simp)
  | mention hi _ ih =>
    cases before with
    | nil => cases (List.cons.inj hlog).1
    | cons q before =>
      obtain ⟨rfl, hrest⟩ := List.cons.inj hlog
      rw [ih hrest, fulls_cons_ref]
  | full hi hw _ ih =>
    cases before with
    | nil =>
      cases (List.cons.inj hlog).1
      exact hw
    | cons q before =>
      obtain ⟨rfl, hrest⟩ := List.cons.inj hlog
      rw [ih hrest, fulls_cons_full, List.map_cons, List.reverse_cons, List.append_assoc]
      rfl

/-- **A component in full shows its package URL, and has it as its reference just if
this was free.** -/
theorem Writes.purl_iff {n : Nat} {g : Graph n} {refs : Fin n → Field} {waiting : List (Fin n)}
    {log before after : List (Fin n × Mark)} {i : Fin n} {w : Written} {arity : Nat}
    (h : Writes g refs [] waiting log) (hlog : log = before ++ (i, .full w arity) :: after)
    {p : Purl} {s : String} (hp : (g.component i).purl = some p) (hs : p.text? = .ok s) :
    w.shown.purl = .ofText s
      ∧ (w.ref = .ofText s ↔ .ofText s ∉ (fulls before).map (·.2)) := by
  have hpurl : (g.component i).purlText = some s := by
    rw [Component.purlText, hp, Option.bind_some, hs]
    rfl
  rw [h.eq_written hlog, List.append_nil]
  refine ⟨?_, ?_⟩
  · rw [Component.shown_written, Component.shown, hpurl]
    rfl
  · rw [Component.written, hpurl, Refs.choose_eq_iff (Purl.text?_ne_empty hs), List.mem_reverse]

/-- An object in full is read from a mark in full, and those before it from the
marks before. -/
theorem exists_full_of_reads {n : Nat} {log : List (Fin n × Mark)}
    {before after : List (Fin n × Item)} {i : Fin n} {ref : Field} {shown : Shown}
    {below : List Field}
    (h : List.Forall₂ Reads log (before ++ (i, .full ref shown below) :: after)) :
    ∃ logBefore w logAfter, log = logBefore ++ (i, .full w below.length) :: logAfter
      ∧ ref = w.ref ∧ shown = w.shown
      ∧ (fulls logBefore).map (·.2) = before.filterMap fun q => q.2.own? := by
  have hbefore := List.forall₂_take_append _ _ _ h
  have hrest := List.forall₂_drop_append _ _ _ h
  obtain ⟨p, logAfter, hp, -, hdrop⟩ := List.forall₂_cons_right_iff.1 hrest
  cases hp with
  | @full _ w =>
    refine ⟨log.take before.length, w, logAfter, ?_, rfl, rfl, ?_⟩
    · rw [← hdrop, List.take_append_drop]
    · rw [← fulls_of_reads hbefore, List.map_filterMap]
      simp only [Option.map_map, Function.comp_def, Option.map_id']

namespace Graph

variable {n : Nat} {g : Graph n} {root : Fin n} {timestamp : String} {doc : Json}

/-- **The marks of what was written spell one entry**, which is read as them. -/
theorem exists_nest_of_writes {log : List (Fin n × Mark)} (h : Writes g unwritten [] [root] log) :
    ∃ e, Mark.nest (log.map (·.2)) = [e]
      ∧ List.Forall₂ Reads log (g.objects root e.toJson)
      ∧ (g.objects root e.toJson).map (·.2) = e.toJson.objects := by
  obtain ⟨hlength, items, hitems, hreads, hall⟩ := h.reads
  obtain ⟨e, he⟩ := List.length_eq_one_iff.1 hlength
  have hobjects : e.toJson.objects = items := by
    rw [← hitems, he, List.map_singleton, List.flatMap_singleton]
  rw [← hobjects] at hreads hall
  exact ⟨e, he, hreads, hall⟩

/-- There is a document just if all that can be reached may be written. -/
theorem exists_document_iff : (∃ doc, g.document root timestamp = .ok doc)
    ↔ ∀ i, g.Reaches [root] i → (g.component i).isWritable := by
  rw [← entry_ok_iff, document]
  cases g.entry root <;> simp [Except.map]

/-- **Where a document comes from**: its one entry is nested from what was written,
and all of that may be written. -/
theorem exists_nest_of_document (h : g.document root timestamp = .ok doc) :
    ∃ e log, doc = ComponentGraph.document timestamp e ∧ Mark.nest (log.map (·.2)) = [e]
      ∧ Writes g unwritten [] [root] log ∧ ∀ q ∈ log, (g.component q.1).isWritable := by
  have hwrite : ∀ i, g.Reaches [root] i → (g.component i).isWritable :=
    exists_document_iff.1 ⟨doc, h⟩
  obtain ⟨log, hlog, hwrites⟩ := Pen.write_writes (fun _ hi _ hj => .child hi hj) hwrite
    (.start g) [root] (.start g) fun _ hi => .start hi
  have hrefs : (Pen.start g).refOf = unwritten := funext (Pen.refOf_start g)
  rw [hrefs] at hwrites
  obtain ⟨e, hnest, -, -⟩ := exists_nest_of_writes hwrites
  rw [document, g.entry_of_nest root hlog hnest] at h
  exact ⟨e, log, (Except.ok.inj h).symm, hnest, hwrites,
    fun q hq => hwrite q.1 (reaches_of_writes hwrites q hq)⟩

/-- The objects of a document are read from what was written. -/
theorem exists_log_of_document (h : g.document root timestamp = .ok doc) :
    ∃ top log, doc.get? "component" = some top ∧ Writes g unwritten [] [root] log
      ∧ (∀ q ∈ log, (g.component q.1).isWritable)
      ∧ List.Forall₂ Reads log (g.objects root top)
      ∧ (g.objects root top).map (·.2) = top.objects := by
  obtain ⟨e, log, rfl, hnest, hwrites, hwritable⟩ := exists_nest_of_document h
  obtain ⟨e', hnest', hreads, hall⟩ := exists_nest_of_writes hwrites
  obtain rfl : e' = e := List.singleton_inj.1 (hnest'.symm.trans hnest)
  exact ⟨e'.toJson, log, rfl, hwrites, hwritable, hreads, hall⟩

/-- **At the top of a document, the root shows as it is.** -/
theorem exists_shown_of_document (h : g.document root timestamp = .ok doc) :
    ∃ top, doc.get? "component" = some top ∧ Shown.ofJson top = (g.component root).shown := by
  obtain ⟨e, log, rfl, hnest, hwrites, -⟩ := exists_nest_of_document h
  refine ⟨e.toJson, rfl, ?_⟩
  cases hwrites with
  | mention hi _ => contradiction
  | @full _ _ _ _ w log _ hw _ =>
    -- the first mark makes the entry
    have hplace : (Mark.full w (g.children root).length).place (Mark.nest (log.map (·.2))) = [e] :=
      hnest
    rw [Mark.place, List.cons_eq_cons] at hplace
    rw [← hplace.1, Entry.shown_full, hw, Component.shown_written]

/-! ## §5. The document. -/

/-- What is settled beforehand does not matter for a document. -/
theorem document_of_keeps {g' : Graph n} (h : Pen.Keeps g (.start g')) (timestamp : String) :
    g'.document root timestamp = g.document root timestamp := by
  have hmarks : (g'.marks root).marks = (g.marks root).marks :=
    Pen.write_marks_of_keeps (.start g) (.start g') [root] h ⟨rfl, rfl⟩
  rw [document, document, entry, entry, Pen.Outcome.entry, Pen.Outcome.entry, hmarks]

/-- **The second time, nothing is left to settle**: a graph that has been written is
written in the same way, and stays as it is. -/
theorem marks_again (g : Graph n) (root : Fin n) : (g.marks root).graph.marks root = g.marks root :=
  Pen.write_again (.start g) (.start (g.marks root).graph) [root] rfl ⟨rfl, rfl⟩

/-- **Writing twice gives the same document**, whichever package URLs have been
settled before, by the first writing or otherwise; and within one document each
component shows its package URL, which is also its reference just if no
component before it has it. -/
theorem document_again (g : Graph n) (root : Fin n) (timestamp : String) {doc : Json}
    (h : g.document root timestamp = .ok doc) :
    (g.marks root).graph.document root timestamp = .ok doc
      ∧ (∀ g' : Graph n, (∀ i, g'.children i = g.children i) →
        (∀ i, g'.component i = g.component i ∨ g'.component i = (g.component i).settled) →
        g'.document root timestamp = .ok doc)
      ∧ ∃ top, doc.get? "component" = some top ∧ (g.objects root top).map (·.2) = top.objects
        ∧ ∀ before i ref shown below after p,
          g.objects root top = before ++ (i, .full ref shown below) :: after →
          (g.component i).purl = some p →
          ∃ s, p.text? = .ok s ∧ shown.purl = .ofText s
            ∧ (ref = shown.purl ↔ .ofText s ∉ before.filterMap fun q => q.2.own?) := by
  refine ⟨?_, fun g' hchildren hcomponent => ?_, ?_⟩
  · rw [document, entry, marks_again]
    exact h
  · rw [document_of_keeps ⟨hchildren, hcomponent⟩, h]
  · obtain ⟨top, log, htop, hwrites, hwritable, hreads, hall⟩ := exists_log_of_document h
    refine ⟨top, htop, hall, fun before i ref shown below after p hsplit hp => ?_⟩
    rw [hsplit] at hreads
    obtain ⟨logBefore, w, logAfter, hlog, rfl, rfl, hbefore⟩ := exists_full_of_reads hreads
    have hmem : (i, Mark.full w below.length) ∈ log := by
      rw [hlog]
      exact List.mem_append_right _ List.mem_cons_self
    obtain ⟨s, hs⟩ := Component.isWritable_iff.1 (hwritable _ hmem) p hp
    obtain ⟨hshown, href⟩ := hwrites.purl_iff hlog hp hs
    exact ⟨s, hs, hshown, by rw [hshown, ← hbefore, href]⟩

/-- A cycle of two package URLs that differ, and are the same when they are
written. -/
def misspelled : Graph 2 where
  nodes := #v[
    ⟨{ name := .ofText "Foo_Bar", purl := some ⟨"pypi", none, "Foo_Bar", some "1.0", none, none⟩ },
      [1, 0]⟩,
    ⟨{ name := .ofText "foo", purl := some ⟨"pypi", none, "foo-BAR", some "1.0", none, none⟩ },
      [0]⟩]

/-- The same document whether nothing is settled, or all, or one component only. -/
theorem misspelled_document_again :
    ∃ doc, misspelled.document 0 "2024-01-01T00:00:00.000Z" = .ok doc
      ∧ (misspelled.marks 0).graph.document 0 "2024-01-01T00:00:00.000Z" = .ok doc
      ∧ misspelled.update 1 Component.settled ≠ misspelled
      ∧ (misspelled.update 1 Component.settled).document 0 "2024-01-01T00:00:00.000Z" = .ok doc := by
  have hwrite : ∀ i, (misspelled.component i).isWritable := by decide +kernel
  have hkeeps : Pen.Keeps (Pen.start misspelled).graph
      (.start (misspelled.update 1 Component.settled)) := Pen.keeps_update rfl
  obtain ⟨e, he⟩ := (misspelled.entry_ok_iff 0).2 fun i _ => hwrite i
  have hdocument : misspelled.document 0 "2024-01-01T00:00:00.000Z"
      = .ok (ComponentGraph.document "2024-01-01T00:00:00.000Z" e) := by
    rw [document, he]
    rfl
  obtain ⟨hagain, hsettled, -⟩ :=
    misspelled.document_again 0 "2024-01-01T00:00:00.000Z" hdocument
  exact ⟨_, hdocument, hagain, by decide +kernel, hsettled _ hkeeps.children hkeeps.component⟩

end Graph

end ComponentGraph
