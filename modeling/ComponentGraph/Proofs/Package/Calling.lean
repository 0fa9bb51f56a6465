/-
  ComponentGraph.Proofs.Package.Calling
  ────────────────────────────────
  **BUILDING ENDS, AND CONVERTS EACH PACKAGE ONCE.**

  Dependencies may form cycles, so no single dependency brings building any
  closer to its end.  What a run does is read off the states that it goes
  through.  A step may call for a key that is in the index; a call converts
  the key's package unless something is known about it.  Then it is known,
  whether its package could be converted or not:

      conversions_fresh  — no key is converted twice
      run_congr          — a run looks at no other conversions
      length_calls       — every call was a candidate, or a dependency of a
                           component
      BuildsOnce         — what this says of a result
      buildsOnce         — it holds of every result
-/
import ComponentGraph.Proofs.Package.Skipping
import ComponentGraph.Proofs.Package.Surfacing
import Mathlib.Algebra.Order.BigOperators.Group.List
import Mathlib.Algebra.Order.Ring.Nat

namespace ComponentGraph

namespace Builder

open Result (Entry entryOf?)

variable {entries : List Entry} {b b' : Builder}

/-! ## §1. Runs, step by step. -/

/-- The states of a run that are followed by another one, in order. -/
def states (entries : List Entry) (b : Builder) : List Builder :=
  if _h : b.stack = [] then [] else b :: states entries (b.step entries)
termination_by ((unknown entries b).length, work b.stack)
decreasing_by exact step_decreases entries b _h

/-- The key for which the next step calls: the one that the top frame has to
follow next, if it is in the index. -/
def call? (entries : List Entry) (b : Builder) : Option Json :=
  match b.stack with
  | ⟨_, key :: _⟩ :: _ => if (entryOf? entries key).isSome then some key else none
  | _ => none

/-- The key whose package the next step converts: the one for which it calls,
unless something is known about it. -/
def conversion? (entries : List Entry) (b : Builder) : Option Json :=
  (b.call? entries).filter fun key => key ∉ b.known

/-- The keys for which a run calls, in order. -/
def calls (entries : List Entry) (b : Builder) : List Json :=
  (states entries b).filterMap (call? entries)

/-- The keys whose packages a run converts, in order. -/
def conversions (entries : List Entry) (b : Builder) : List Json :=
  (states entries b).filterMap (conversion? entries)

theorem run_step (h : b.stack ≠ []) : run entries b = run entries (b.step entries) := by
  rw [run, dif_neg h]

/-- A run is over after as many steps as it has states. -/
theorem iterate_states (entries : List Entry) (b : Builder) :
    (step entries)^[(states entries b).length] b = run entries b := by
  fun_induction states entries b with
  | case1 b h =>
    rw [run, dif_pos h]
    rfl
  | case2 b h ih =>
    rw [run_step h, List.length_cons, Function.iterate_succ_apply, ih]

/-! ## §2. What a move converts. -/

theorem call?_of_stack {owner : Option Json} {key : Json} {pending : List Json}
    {stack : List Frame} (hs : b.stack = ⟨owner, key :: pending⟩ :: stack) :
    b.call? entries = if (entryOf? entries key).isSome then some key else none := by
  rw [call?, hs]

theorem call?_of_done {owner : Option Json} {stack : List Frame}
    (hs : b.stack = ⟨owner, []⟩ :: stack) : b.call? entries = none := by
  rw [call?, hs]

/-- A key that is in the index, and about which nothing is known, is converted. -/
theorem conversion?_of_fresh {owner : Option Json} {key : Json} {pending : List Json}
    {stack : List Frame} (hs : b.stack = ⟨owner, key :: pending⟩ :: stack) (hk : key ∉ b.known)
    (hi : (entryOf? entries key).isSome) : b.conversion? entries = some key := by
  rw [conversion?, call?_of_stack hs, if_pos hi, Option.filter_some, if_pos (by simpa using hk)]

/-- A key that is known, or not in the index, is not converted. -/
theorem conversion?_of_pass {owner : Option Json} {key : Json} {pending : List Json}
    {stack : List Frame} (hs : b.stack = ⟨owner, key :: pending⟩ :: stack)
    (hk : entryOf? entries key = none ∨ key ∈ b.known) : b.conversion? entries = none := by
  rw [conversion?, call?_of_stack hs]
  rcases hk with hk | hk
  · rw [hk]
    rfl
  · split
    · rw [Option.filter_some, if_neg (by simpa using hk)]
    · rfl

theorem conversion?_of_done {owner : Option Json} {stack : List Frame}
    (hs : b.stack = ⟨owner, []⟩ :: stack) : b.conversion? entries = none := by
  rw [conversion?, call?_of_done hs]
  rfl

/-- **A move that converts no package leaves what is known as it is; one that
converts a package makes its key known, and nothing else.** -/
theorem known_move (hm : Move entries b b') :
    (b.conversion? entries = none ∧ ∀ k, k ∈ b'.known ↔ k ∈ b.known)
      ∨ ∃ key, b.conversion? entries = some key ∧ key ∉ b.known
        ∧ (entryOf? entries key).isSome ∧ ∀ k, k ∈ b'.known ↔ k = key ∨ k ∈ b.known := by
  cases hm with
  | finish hs hend => exact .inl ⟨conversion?_of_done hs, fun _ => Iff.rfl⟩
  | hand hs =>
    refine .inl ⟨conversion?_of_done hs, fun k => ?_⟩
    rw [known_attach]
    rfl
  | pass hs hk =>
    refine .inl ⟨conversion?_of_pass hs ?_, fun _ => Iff.rfl⟩
    exact hk.imp_right (List.mem_append_right _)
  | meet hs hk =>
    refine .inl ⟨conversion?_of_pass hs (.inr (List.mem_append_left _ hk)), fun k => ?_⟩
    rw [known_attach]
    rfl
  | @refuse owner key pending stack error hs hk he =>
    have hi : (entryOf? entries key).isSome := by
      obtain ⟨e, he, -⟩ := Option.map_eq_some_iff.1 he
      rw [he]
      rfl
    refine .inr ⟨key, conversion?_of_fresh hs hk hi, hk, hi, fun k => ?_⟩
    rw [known_leave, List.mem_append, List.mem_singleton, or_comm]
    rfl
  | @enter owner key pending stack component hs hk he =>
    have hi : (entryOf? entries key).isSome := by
      obtain ⟨e, he, -⟩ := Option.bind_eq_some_iff.1 he
      rw [he]
      rfl
    refine .inr ⟨key, conversion?_of_fresh hs hk hi, hk, hi, fun k => ?_⟩
    rw [known_register, List.mem_append, List.mem_append, List.mem_singleton, known,
      List.mem_append]
    show (k ∈ b.registered ∨ k = key) ∨ k ∈ b.refused ↔ _
    tauto

/-- **A run converts no package twice, and none about which something was known
at its start.** -/
theorem conversions_fresh (entries : List Entry) (b : Builder) :
    (conversions entries b).Nodup
      ∧ ∀ key ∈ conversions entries b, key ∉ b.known ∧ (entryOf? entries key).isSome := by
  unfold conversions
  fun_induction states entries b with
  | case1 b h => simp
  | case2 b h ih =>
    obtain ⟨hnodup, hfresh⟩ := ih
    have hmove : Move entries b (b.step entries) := step_move h
    rcases known_move hmove with ⟨hc, hk⟩ | ⟨key, hc, hnew, hi, hk⟩
    · rw [List.filterMap_cons_none hc]
      refine ⟨hnodup, fun k hmem => ⟨fun hb => ?_, (hfresh k hmem).2⟩⟩
      exact (hfresh k hmem).1 ((hk k).2 hb)
    · rw [List.filterMap_cons_some hc, List.nodup_cons]
      -- the key is known from here on
      refine ⟨⟨fun hmem => (hfresh key hmem).1 ((hk key).2 (.inl rfl)), hnodup⟩, fun k hmem => ?_⟩
      rcases List.mem_cons.1 hmem with rfl | hmem
      · exact ⟨hnew, hi⟩
      · exact ⟨fun hb => (hfresh k hmem).1 ((hk k).2 (.inr hb)), (hfresh k hmem).2⟩

/-! ## §3. What a run looks at. -/

/-- Do these entries have the same keys and packages, and the same outcomes at
some of the keys? -/
structure AgreeAt (keys : List Json) (entries other : List Entry) : Prop where
  packages : ∀ key, (entryOf? other key).map (·.package) = (entryOf? entries key).map (·.package)
  outcomes : ∀ key ∈ keys,
    (entryOf? other key).map (·.outcome) = (entryOf? entries key).map (·.outcome)

theorem AgreeAt.mono {keys more : List Json} {other : List Entry}
    (h : AgreeAt more entries other) (hsub : ∀ key ∈ keys, key ∈ more) :
    AgreeAt keys entries other :=
  ⟨h.packages, fun key hk => h.outcomes key (hsub key hk)⟩

/-- **A step looks at the conversion that it makes, and at no other.** -/
theorem step_congr {other : List Entry}
    (h : AgreeAt (b.conversion? entries).toList entries other) :
    b.step other = b.step entries := by
  unfold step
  split
  · rfl
  · rfl
  · rename_i owner key pending stack hs
    have hp := h.packages key
    unfold ask
    cases he : entryOf? entries key with
    | none =>
      rw [he, Option.map_none, Option.map_eq_none_iff] at hp
      rw [hp]
    | some e =>
      rw [he] at hp
      obtain ⟨e', he', hpackage⟩ := Option.map_eq_some_iff.1 hp
      rw [he']
      by_cases hr : key ∈ b.registered
      · exact (if_pos hr).trans (if_pos hr).symm
      · by_cases hf : key ∈ b.refused
        · refine (if_neg hr).trans ((if_pos hf).trans ?_)
          exact ((if_neg hr).trans (if_pos hf)).symm
        · -- only here is an outcome looked at
          have hk : key ∉ b.known := by simp [known, hr, hf]
          have hi : (entryOf? entries key).isSome := by
            rw [he]
            rfl
          have hc := conversion?_of_fresh hs hk hi
          have ho := h.outcomes key (by simp [hc])
          rw [he, he', Option.map_some, Option.map_some, Option.some.injEq] at ho
          simp only [ho, hpackage]

/-- **A run looks at the conversions that it makes, and at no others.** -/
theorem run_congr {other : List Entry} (h : AgreeAt (conversions entries b) entries other) :
    run other b = run entries b := by
  unfold conversions at h
  fun_induction states entries b with
  | case1 b hend => rw [run, dif_pos hend, run, dif_pos hend]
  | case2 b hend ih =>
    have hstep : b.step other = b.step entries := by
      refine step_congr (h.mono fun key hk => ?_)
      rw [List.mem_filterMap]
      exact ⟨b, List.mem_cons_self, by simpa using hk⟩
    have hrest := h.mono fun key hk => by
      obtain ⟨c, hc, hkey⟩ := List.mem_filterMap.1 hk
      exact List.mem_filterMap.2 ⟨c, List.mem_cons_of_mem b hc, hkey⟩
    rw [run_step hend, hstep, ih hrest, ← run_step hend]

/-! ## §4. How many calls there are. -/

/-- How many of these keys are in the index? -/
def countIndexed (entries : List Entry) (keys : List Json) : Nat :=
  keys.countP fun key => (entryOf? entries key).isSome

/-- The dependencies in the index of all components that are registered. -/
def followed (entries : List Entry) (b : Builder) : Nat :=
  (b.registered.map fun key => countIndexed entries (needs entries key)).sum

/-- A step that takes a key off its frame calls for it if it is in the index. -/
theorem calls_goOn {owner : Option Json} {key : Json} {pending : List Json} {stack : List Frame}
    (hs : b.stack = ⟨owner, key :: pending⟩ :: stack) :
    (b.call? entries).toList.length
        + countIndexed entries (pending ++ stack.flatMap (·.pending))
      = countIndexed entries b.waiting := by
  rw [call?_of_stack hs, waiting_cons hs, List.cons_append]
  unfold countIndexed
  rw [List.countP_cons, Nat.add_comm]
  split <;> rfl

/-- **What a move calls for was waiting, and what is waiting anew is followed.** -/
theorem calls_move (hm : Move entries b b') :
    (b.call? entries).toList.length + countIndexed entries b'.waiting + followed entries b
      = countIndexed entries b.waiting + followed entries b' := by
  cases hm with
  | finish hs hend =>
    rw [call?_of_done hs, waiting_cons hs, Option.toList_none, List.length_nil, Nat.zero_add]
    rfl
  | hand hs =>
    rw [call?_of_done hs, waiting_cons hs, waiting, stack_attach, followed, followed,
      registered_attach, Option.toList_none, List.length_nil, Nat.zero_add]
    rfl
  | pass hs hk =>
    rw [← calls_goOn hs]
    rfl
  | meet hs hk =>
    rw [← calls_goOn hs, waiting, stack_attach, followed, followed, registered_attach]
    rfl
  | refuse hs hk he =>
    rw [← calls_goOn hs]
    rfl
  | @enter owner key pending stack component hs hk he =>
    -- the dependencies of the new component wait in front of the others
    have hw : ((b.withStack (⟨owner, pending⟩ :: stack)).register key component
        (needs entries key)).waiting
          = needs entries key ++ (pending ++ stack.flatMap (·.pending)) := rfl
    have hr : ((b.withStack (⟨owner, pending⟩ :: stack)).register key component
        (needs entries key)).registered = b.registered ++ [key] := by
      simp [register, registered, withStack]
    rw [← calls_goOn hs, hw, followed, followed, hr, List.map_append, List.sum_append,
      countIndexed, List.countP_append]
    simp only [countIndexed, List.map_singleton, List.sum_singleton]
    omega

/-- **A run calls for what is waiting, and for what it registers depends on.** -/
theorem length_calls (entries : List Entry) (b : Builder) :
    (calls entries b).length + followed entries b
      = countIndexed entries b.waiting + followed entries (run entries b) := by
  unfold calls
  fun_induction states entries b with
  | case1 b h =>
    rw [run, dif_pos h, waiting, h]
    rfl
  | case2 b h ih =>
    have hstep : Move entries b (b.step entries) := step_move h
    have hmove := calls_move hstep
    rw [run_step h]
    have hcons : ((b :: states entries (b.step entries)).filterMap (call? entries)).length
        = (b.call? entries).toList.length
          + ((states entries (b.step entries)).filterMap (call? entries)).length := by
      cases hc : b.call? entries with
      | none => simp [List.filterMap_cons_none hc]
      | some key =>
        rw [List.filterMap_cons_some hc, List.length_cons, Nat.add_comm]
        rfl
    rw [hcons]
    omega

end Builder

/-! ## §5. Results. -/

namespace Result

variable (r : Result)

/-- The keys for which the building of a result calls, in order. -/
def calls : List Json := Builder.calls r.entries (.start r.candidates)

/-- The keys whose packages are converted for a result, in order. -/
def conversions : List Json := Builder.conversions r.entries (.start r.candidates)

/-- **Building ends, and converts no package twice.** -/
structure BuildsOnce (r : Result) : Prop where
  /-- After so many steps no frame is left. -/
  ends : ∃ steps, (Builder.step r.entries)^[steps] (.start r.candidates) = r.built
    ∧ r.built.stack = []
  /-- No key is converted twice. -/
  once : r.conversions.Nodup
  /-- A key that is converted is that of a package. -/
  indexed : ∀ key ∈ r.conversions, key ∈ r.packages.map Package.key
  /-- What is built depends on no other conversion. -/
  only : ∀ entries, Builder.AgreeAt r.conversions r.entries entries →
    Builder.run entries (.start r.candidates) = r.built
  /-- Every call was a candidate, or a dependency of a package in the index. -/
  length_calls_le : r.calls.length
    ≤ r.candidates.length + (r.index.map fun q => q.2.dependsOn.length).sum

/-- The dependencies in the index, package by package. -/
theorem sum_dependencies : (r.keys.map fun key => (r.dependencies key).length).sum
    = (r.index.map fun q => q.2.dependsOn.length).sum := by
  rw [← map_fst_index, List.map_map]
  congr 1
  apply List.map_congr_left
  intro q hq
  have hl : r.lastPackage? q.1 = some q.2 := by
    rw [← find?_index]
    exact Table.find?_of_mem (Table.nodup_ofList _) hq
  simp [dependencies, hl]

/-- What is registered has no more dependencies than what is in the index. -/
theorem followed_le : Builder.followed r.entries r.built
    ≤ (r.index.map fun q => q.2.dependsOn.length).sum := by
  have hsub : ∀ key ∈ r.built.registered, key ∈ r.keys := by
    intro key hk
    obtain ⟨p, hp⟩ := (r.mem_registered_iff.1 hk).exists_lastPackage?
    rw [mem_keys_iff, hp]
    rfl
  obtain ⟨among, hperm, hamong⟩ := List.subperm_of_subset r.built_finished.sound.nodup hsub
  calc Builder.followed r.entries r.built
      ≤ (r.built.registered.map fun key => (r.dependencies key).length).sum := by
        apply List.sum_le_sum
        intro key _
        rw [← needs_entries]
        exact List.countP_le_length
    _ = (among.map fun key => (r.dependencies key).length).sum :=
        ((hperm.map _).sum_eq).symm
    _ ≤ (r.keys.map fun key => (r.dependencies key).length).sum :=
        (hamong.map _).sum_le_sum fun _ _ => Nat.zero_le _
    _ = (r.index.map fun q => q.2.dependsOn.length).sum := r.sum_dependencies

/-- **Every result is built in finitely many steps, without converting a
package twice**, whatever depends on what. -/
theorem buildsOnce (r : Result) : r.BuildsOnce := by
  obtain ⟨honce, hfresh⟩ := Builder.conversions_fresh r.entries (.start r.candidates)
  refine ⟨⟨_, Builder.iterate_states r.entries _, ?_⟩, honce, ?_, ?_, ?_⟩
  · exact (Builder.run_induction (P := fun _ => True) (fun _ _ _ _ => trivial) trivial).2
  · intro key hk
    have hi := (hfresh key hk).2
    rw [entryOf?_entries, Option.isSome_map, ← mem_keys_iff] at hi
    exact List.mem_eraseDups.1 hi
  · exact fun entries h => Builder.run_congr h
  · have hcalls := Builder.length_calls r.entries (.start r.candidates)
    have hcandidates : Builder.countIndexed r.entries (Builder.start r.candidates).waiting
        ≤ r.candidates.length := by
      have hw : (Builder.start r.candidates).waiting = r.candidates := by
        simp [Builder.start, Builder.waiting]
      rw [hw]
      exact List.countP_le_length
    have hfollowed := r.followed_le
    have hnone : Builder.followed r.entries (.start r.candidates) = 0 := rfl
    show (Builder.calls r.entries (.start r.candidates)).length ≤ _
    rw [built] at hfollowed
    omega

end Result

end ComponentGraph
