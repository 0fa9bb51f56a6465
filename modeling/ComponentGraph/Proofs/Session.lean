/-
  ComponentGraph.Proofs.Session
  ────────────────────────────────
  **WHAT STEPS LEAVE OF A SESSION.**

  A step that fails leaves the session as it was.  Only writing fails on its
  way, and what it has done by then is to settle package URLs:

      step_of_error    — a failing step settles at most, and does nothing at
                         all unless it writes
      settles_after    — so does a run in which every step fails
      Settles.document — whose documents are the same as before
      run_replied      — steps that fail can be left out of a run
      number?_after    — a name stands for one component until it is given
                         again
-/
import ComponentGraph.Proofs.View.Stability
import ComponentGraph.Session

namespace ComponentGraph

/-- Does this step write package URLs? -/
def Step.isWriting : Step → Bool
  | .writePurl _ | .write _ => true
  | _ => false

/-- The name that this step gives to a component. -/
def Step.named? : Step → Option String
  | .make id _ | .declare id _ | .assemble id _ | .select id _ _ => some id
  | _ => none

namespace Session

variable {s t u : Session}

/-! ## §1. Settling. -/

/-- Is this the same session, but that package URLs may have been settled? -/
def Settles (s t : Session) : Prop :=
  ∃ g : Graph s.size, t = s.withGraph g ∧ Pen.Keeps s.graph (.start g)

theorem Settles.refl (s : Session) : s.Settles s := ⟨s.graph, rfl, .start s.graph⟩

theorem Settles.trans (h : s.Settles t) (h' : t.Settles u) : s.Settles u := by
  obtain ⟨g, rfl, hg⟩ := h
  obtain ⟨g', rfl, hg'⟩ := h'
  exact ⟨g', rfl, hg.trans hg'⟩

theorem Settles.size_eq (h : s.Settles t) : s.size = t.size := by
  obtain ⟨g, rfl, -⟩ := h
  rfl

/-- **A document does not show what was settled before it was written.** -/
theorem Settles.document (h : s.Settles t) (i : Fin s.size) (timestamp : String) :
    t.graph.document (i.cast h.size_eq) timestamp = s.graph.document i timestamp := by
  obtain ⟨g, rfl, hg⟩ := h
  -- both runs leave settled graphs behind, but a document is made of the marks alone
  have hmarks : (g.marks i).marks = (s.graph.marks i).marks :=
    Pen.write_marks_of_keeps (.start s.graph) (.start g) [i] hg ⟨rfl, rfl⟩
  show (((g.marks i).marks.map _).map _) = _
  rw [hmarks]
  rfl

theorem settles_writePurlStep (s : Session) (id : String) : s.Settles (s.writePurlStep id).1 := by
  unfold writePurlStep
  split
  · exact .refl s
  · rename_i i _
    have hkeeps : Pen.Keeps (Pen.start s.graph).graph
        (.start (s.graph.update i Component.settled)) := Pen.keeps_update rfl
    exact ⟨_, rfl, hkeeps⟩

theorem settles_writeStep (s : Session) (id : String) : s.Settles (s.writeStep id).1 := by
  unfold writeStep
  split
  · exact .refl s
  · rename_i i _
    have hgraph : (Pen.start (s.graph.marks i).graph).graph
        = ((Pen.start s.graph).write [i]).graph := rfl
    exact ⟨_, rfl, Pen.keeps_write hgraph⟩

/-- Writing settles, whether it succeeds or not. -/
theorem settles_step_of_isWriting {next : Step} (h : next.isWriting) :
    s.Settles (s.step next).1 := by
  cases next with
  | writePurl id => exact settles_writePurlStep s id
  | write id => exact settles_writeStep s id
  | _ => contradiction

/-! ## §2. Steps that fail. -/

/-- Does this outcome of a step leave the session as it was, if it is a failure? -/
def LeavesOnError (s : Session) (outcome : Session × Except StepError Reply) : Prop :=
  ∀ e, outcome.2 = .error e → outcome.1 = s

theorem leaves_error (e : StepError) : s.LeavesOnError (s, .error e) := fun _ _ => rfl

theorem leaves_ok (t : Session) (reply : Reply) : s.LeavesOnError (t, .ok reply) :=
  fun _ h => by contradiction

theorem leaves_view (id : String) (reply : Fin s.size → Reply) :
    s.LeavesOnError (s.view id reply) := fun _ _ => rfl

theorem leaves_adoptRead (id : String) (c : Except StepError Component) :
    s.LeavesOnError (s.adoptRead id c) := by
  cases c with
  | ok c => exact leaves_ok _ _
  | error e => exact leaves_error e

theorem leaves_loadStep (id : String) (files : FileTree) (path : String) :
    s.LeavesOnError (s.loadStep id files path) := by
  unfold loadStep
  split
  · exact leaves_ok _ _
  · exact leaves_error _

theorem leaves_assembleStep (id report : String) : s.LeavesOnError (s.assembleStep id report) := by
  unfold assembleStep
  split
  · exact leaves_error _
  · split
    · exact leaves_error _
    · exact leaves_ok _ _

theorem leaves_selectStep (id start : String) (path : List Nat) :
    s.LeavesOnError (s.selectStep id start path) := by
  unfold selectStep
  split
  · exact leaves_error _
  · split
    · exact leaves_ok _ _
    · exact leaves_error _

theorem leaves_linkStep (parent child : String) : s.LeavesOnError (s.linkStep parent child) := by
  unfold linkStep
  split
  · exact leaves_error _
  · exact leaves_error _
  · exact leaves_ok _ _

theorem leaves_unlinkStep (parent : String) (position : Nat) :
    s.LeavesOnError (s.unlinkStep parent position) := by
  unfold unlinkStep
  split
  · exact leaves_error _
  · exact leaves_ok _ _

theorem leaves_changeStep (id field : String) (value : Field) :
    s.LeavesOnError (s.changeStep id field value) := by
  unfold changeStep
  split
  · exact leaves_error _
  · split
    · exact leaves_error _
    · exact leaves_ok _ _

theorem leaves_sameStep (a b : String) : s.LeavesOnError (s.sameStep a b) := by
  unfold sameStep
  split
  · exact leaves_error _
  · exact leaves_error _
  · exact leaves_ok _ _

theorem leaves_step {next : Step} (h : next.isWriting = false) :
    s.LeavesOnError (s.step next) := by
  cases next with
  | make id record => exact leaves_adoptRead id _
  | declare id declaration => exact leaves_adoptRead id _
  | keep id report => exact leaves_ok _ _
  | load id files path => exact leaves_loadStep id files path
  | assemble id report => exact leaves_assembleStep id report
  | select id start path => exact leaves_selectStep id start path
  | link parent child => exact leaves_linkStep parent child
  | unlink parent position => exact leaves_unlinkStep parent position
  | change id field value => exact leaves_changeStep id field value
  | same a b => exact leaves_sameStep a b
  | look id => exact leaves_view id _
  | list id => exact leaves_view id _
  | draw id => exact leaves_view id _
  | count id => exact leaves_view id _
  | writePurl id => contradiction
  | write id => contradiction

/-- **A step that fails settles at most, and does nothing unless it writes.** -/
theorem step_of_error {next : Step} {e : StepError} (h : (s.step next).2 = .error e) :
    s.Settles (s.step next).1 ∧ (next.isWriting = false → (s.step next).1 = s) := by
  refine ⟨?_, fun hw => leaves_step hw e h⟩
  cases hw : next.isWriting with
  | true => exact settles_step_of_isWriting hw
  | false =>
    rw [leaves_step hw e h]
    exact .refl s

/-! ## §3. Runs. -/

/-- The session after some steps. -/
def after (s : Session) (steps : List Step) : Session :=
  steps.foldl (fun t next => (t.step next).1) s

theorem run_cons (s : Session) (next : Step) (rest : List Step) :
    s.run (next :: rest) = (s.step next).2 :: (s.step next).1.run rest := rfl

theorem after_cons (s : Session) (next : Step) (rest : List Step) :
    s.after (next :: rest) = (s.step next).1.after rest := rfl

/-- **A run in which every step fails settles at most.** -/
theorem settles_after {steps : List Step} (h : ∀ answer ∈ s.run steps, ∃ e, answer = .error e) :
    s.Settles (s.after steps) := by
  -- on the steps, from whatever session the failure before has left
  induction steps generalizing s with
  | nil => exact .refl s
  | cons next rest ih =>
    rw [run_cons, List.forall_mem_cons] at h
    obtain ⟨⟨e, he⟩, hrest⟩ := h
    rw [after_cons]
    exact (step_of_error he).1.trans (ih hrest)

/-- The steps of a run that have a reply. -/
def replied (s : Session) (steps : List Step) : List Step :=
  ((steps.zip (s.run steps)).filter (·.2.isOk)).map (·.1)

/-- A step with a reply is one of those, and the run goes on behind it. -/
theorem replied_cons_of_ok {next : Step} {rest : List Step} (h : (s.step next).2.isOk) :
    s.replied (next :: rest) = next :: (s.step next).1.replied rest := by
  simp [replied, run_cons, h]

theorem replied_cons_of_error {next : Step} {rest : List Step} (h : ¬ (s.step next).2.isOk) :
    s.replied (next :: rest) = (s.step next).1.replied rest := by
  simp [replied, run_cons, h]

/-- **Steps that fail can be left out of a run**, if none of them writes: the
other steps have the replies that they had, and the session ends as it did. -/
theorem run_replied {steps : List Step}
    (h : ∀ p ∈ steps.zip (s.run steps), p.1.isWriting → p.2.isOk) :
    s.run (s.replied steps) = (s.run steps).filter (·.isOk)
      ∧ s.after (s.replied steps) = s.after steps := by
  induction steps generalizing s with
  | nil => exact ⟨rfl, rfl⟩
  | cons next rest ih =>
    rw [run_cons, List.zip_cons_cons, List.forall_mem_cons] at h
    obtain ⟨hrun, hafter⟩ := ih h.2
    by_cases hok : (s.step next).2.isOk
    · rw [replied_cons_of_ok hok, run_cons, run_cons, List.filter_cons_of_pos hok, hrun, after_cons,
        after_cons, hafter]
      exact ⟨rfl, rfl⟩
    · -- the failure has left nothing behind, so the run goes on from the same session
      obtain ⟨e, he⟩ : ∃ e, (s.step next).2 = .error e := by
        cases hs : (s.step next).2 with
        | ok reply => simp [hs, Except.isOk, Except.toBool] at hok
        | error e => exact ⟨e, rfl⟩
      have hwriting : next.isWriting = false := by
        cases hw : next.isWriting with
        | true => exact absurd (h.1 hw) hok
        | false => rfl
      have hsame : (s.step next).1 = s := (step_of_error he).2 hwriting
      rw [replied_cons_of_error hok, run_cons, List.filter_cons_of_neg hok, after_cons]
      rw [hsame] at hrun hafter ⊢
      exact ⟨hrun, hafter⟩

/-! ## §4. Names. -/

/-- The number of the component that a name stands for. -/
def number? (s : Session) (id : String) : Option Nat := (Table.find? id s.names).map Fin.val

variable {id other : String}

/-- Who settles gives no names. -/
theorem Settles.number? (h : s.Settles t) (id : String) : t.number? id = s.number? id := by
  obtain ⟨g, rfl, -⟩ := h
  rfl

theorem number?_name (h : id ≠ other) (i : Fin s.size) :
    (s.name other i).number? id = s.number? id := by
  show (Table.find? id (Table.set other i s.names)).map Fin.val = _
  rw [Table.find?_set, if_neg h]
  rfl

/-- Components that are taken up are numbered behind those that are there. -/
theorem number?_adopt (h : id ≠ other) (r : Rooted) :
    (s.adopt other r).number? id = s.number? id := by
  show (Table.find? id (Table.set other _ (s.names.map fun p => (p.1, p.2.castAdd r.size)))).map
    Fin.val = _
  -- the numbers of the larger graph begin with those that there were
  rw [Table.find?_set, if_neg h, Table.find?_map_snd fun _ i => Fin.castAdd r.size i,
    Option.map_map]
  rfl

theorem number?_adoptRead (h : id ≠ other) (c : Except StepError Component) :
    (s.adoptRead other c).1.number? id = s.number? id := by
  cases c with
  | ok c => exact number?_adopt h _
  | error e => rfl

theorem number?_assembleStep (h : id ≠ other) (report : String) :
    (s.assembleStep other report).1.number? id = s.number? id := by
  unfold assembleStep
  split
  · rfl
  · split
    · rfl
    · exact number?_adopt h _

theorem number?_selectStep (h : id ≠ other) (start : String) (path : List Nat) :
    (s.selectStep other start path).1.number? id = s.number? id := by
  unfold selectStep
  split
  · rfl
  · split
    · exact number?_name h _
    · rfl

/-- A step that gives no names leaves those that there are. -/
theorem number?_step_of_named?_eq_none {next : Step} (h : next.named? = none) :
    (s.step next).1.number? id = s.number? id := by
  cases next with
  | make | declare | assemble | select => contradiction
  | load id files path =>
    simp only [step, loadStep]
    split <;> rfl
  | link parent child =>
    simp only [step, linkStep]
    split <;> rfl
  | unlink parent position =>
    simp only [step, unlinkStep]
    split <;> rfl
  | change id field value =>
    simp only [step, changeStep]
    split
    · rfl
    · split <;> rfl
  | same a b =>
    simp only [step, sameStep]
    split <;> rfl
  | writePurl | write =>
    exact Settles.number? (settles_step_of_isWriting rfl) _
  | keep | look | list | draw | count => rfl

/-- A name stands for the same component after a step that does not give it. -/
theorem number?_step {next : Step} (h : next.named? ≠ some id) :
    (s.step next).1.number? id = s.number? id := by
  cases next with
  | make other record => exact number?_adoptRead (fun he => h (congrArg some he.symm)) _
  | declare other declaration => exact number?_adoptRead (fun he => h (congrArg some he.symm)) _
  | assemble other report => exact number?_assembleStep (fun he => h (congrArg some he.symm)) report
  | select other start path => exact number?_selectStep (fun he => h (congrArg some he.symm)) start path
  | _ => exact number?_step_of_named?_eq_none rfl

/-- **A name stands for the same component until it is given again.** -/
theorem number?_after {steps : List Step} (h : ∀ next ∈ steps, next.named? ≠ some id) :
    (s.after steps).number? id = s.number? id := by
  induction steps generalizing s with
  | nil => rfl
  | cons next rest ih =>
    obtain ⟨hnext, hrest⟩ := List.forall_mem_cons.1 h
    rw [after_cons, ih hrest, number?_step hnext]

end Session

end ComponentGraph
