/-
  ComponentGraph.Proofs.Package.Tracing
  ────────────────────────────────
  **IN WHICH ORDER KEYS ARE LEFT OUT.**

  Building goes over the dependencies depth first.  What it has left out so
  far, and then what fails of all that it has still to meet, stays the same
  with every move (`failures_move`).  At the start this is what fails of a
  plain depth-first walk over the keys, and at the end it is what building
  has left out:

      Builder.left_run  — a run leaves out what fails along the walk
      SkipTrace         — what it is for the skips of a result to be exact
      skipTrace         — they are
-/
import ComponentGraph.Proofs.Package.Skipping

namespace ComponentGraph

open Stop (firsts)

namespace Builder

open Result (Entry entryOf?)

variable {entries : List Entry} {candidates : List Json} {b b' : Builder}

/-! ## §1. What is ahead. -/

/-- Where building goes from a key: to what its package depends on, if this
becomes a component. -/
def follow (entries : List Entry) (key : Json) : List Json :=
  if becomes entries key then needs entries key else []

/-- The key with its error, if its package cannot be converted. -/
def failure? (entries : List Entry) (key : Json) : Option (Json × ConversionError) :=
  (entryOf? entries key).bind fun e =>
    match e.outcome with
    | .error error => some (key, error)
    | .ok _ => none

/-- What building meets for the first time from here on. -/
def ahead (entries : List Entry) (b : Builder) : List Json :=
  firsts (Walk.stops id (follow entries) (entries.map (·.key)) b.known b.waiting)

/-- What has been left out, and then what fails of what is ahead. -/
def failures (entries : List Entry) (b : Builder) : List (Json × ConversionError) :=
  b.left ++ (ahead entries b).filterMap (failure? entries)

theorem failure?_of_error {key : Json} {error : ConversionError}
    (he : (entryOf? entries key).map (·.outcome) = some (.error error)) :
    failure? entries key = some (key, error) := by
  obtain ⟨e, he, ho⟩ := Option.map_eq_some_iff.1 he
  simp [failure?, he, ho]

theorem failure?_of_becomes {key : Json} (hk : becomes entries key) :
    failure? entries key = none := by
  unfold becomes outcomeOf? at hk
  unfold failure?
  cases he : entryOf? entries key with
  | none => rfl
  | some e =>
    rw [he, Option.bind_some] at hk
    cases ho : e.outcome with
    | error error => simp [ho, Except.toOption] at hk
    | ok component => simp [ho]

/-- Indexed keys have entries. -/
theorem mem_keys_iff_entryOf? {key : Json} :
    key ∈ entries.map (·.key) ↔ (entryOf? entries key).isSome := by
  simp [entryOf?, List.find?_isSome]

/-! ## §2. The moves. -/

/-- A frame that is done has nothing ahead. -/
theorem failures_drop {owner : Option Json} {stack : List Frame}
    (hs : b.stack = ⟨owner, []⟩ :: stack) (hs' : b'.stack = stack) (hk : b'.known = b.known)
    (hl : b'.left = b.left) : failures entries b' = failures entries b := by
  have hw : b'.waiting = b.waiting := by
    rw [waiting_cons hs, waiting, hs']
    rfl
  rw [failures, failures, ahead, ahead, hl, hk, hw]

/-- A key that is known, or not indexed, is not ahead. -/
theorem failures_goOn {owner : Option Json} {key : Json} {pending : List Json}
    {stack : List Frame} (hs : b.stack = ⟨owner, key :: pending⟩ :: stack)
    (hs' : b'.stack = ⟨owner, pending⟩ :: stack) (hk : b'.known = b.known)
    (hl : b'.left = b.left) (hkey : key ∈ b.known ∨ entryOf? entries key = none) :
    failures entries b' = failures entries b := by
  have hahead : ahead entries b' = ahead entries b := by
    rw [ahead, ahead, hk, waiting_cons hs, waiting_cons hs', List.cons_append]
    by_cases hm : id key ∈ b.known
    · rw [Walk.stops_cons_again hm, Stop.firsts_cons_again]
    · have hn : id key ∉ entries.map (·.key) := by
        rw [mem_keys_iff_entryOf?, id, hkey.resolve_left hm]
        simp
      rw [Walk.stops_cons_unknown hm hn]
  rw [failures, failures, hl, hahead]

/-- A key that is indexed and not known is next, and then what it leads to. -/
theorem ahead_cons {owner : Option Json} {key : Json} {pending : List Json}
    {stack : List Frame} (hs : b.stack = ⟨owner, key :: pending⟩ :: stack) (hk : key ∉ b.known)
    (hi : (entryOf? entries key).isSome) (hk' : ∀ k, k ∈ b'.known ↔ k ∈ key :: b.known)
    (hw : b'.waiting = follow entries key ++ (pending ++ stack.flatMap (·.pending))) :
    ahead entries b = key :: ahead entries b' := by
  have hseen : id key ∉ b.known := hk
  have hn : id key ∈ entries.map (·.key) := mem_keys_iff_entryOf?.2 hi
  rw [ahead, ahead, waiting_cons hs, hw, List.cons_append, Walk.stops_cons_first hseen hn,
    Stop.firsts_cons_first, Walk.stops_congr _ _ _ hk']
  rfl

/-- **With every move it stays the same what fails in all.** -/
theorem failures_move (hm : Move entries b b') : failures entries b' = failures entries b := by
  cases hm with
  | finish hs hend => exact failures_drop hs rfl rfl rfl
  | hand hs => exact failures_drop hs (stack_attach ..) (known_attach ..) (left_attach ..)
  | pass hs hk =>
    refine failures_goOn hs rfl rfl rfl ?_
    rcases hk with hk | hk
    · exact .inr hk
    · exact .inl (List.mem_append_right _ hk)
  | meet hs hk =>
    exact failures_goOn hs (stack_attach ..) (known_attach ..) (left_attach ..)
      (.inl (List.mem_append_left _ hk))
  | @refuse owner key pending stack error hs hk he =>
    have hi : (entryOf? entries key).isSome := by
      obtain ⟨e, he, -⟩ := Option.map_eq_some_iff.1 he
      rw [he]
      rfl
    -- the key fails, and nothing is followed from it
    have hf : follow entries key = [] := by
      rw [follow, becomes, outcomeOf?_of_error he]
      rfl
    have hknown : ∀ k, k ∈ ((b.withStack (⟨owner, pending⟩ :: stack)).leave key error).known
        ↔ k ∈ key :: b.known := by
      intro k
      rw [known_leave, List.mem_append, List.mem_singleton, List.mem_cons, or_comm]
      rfl
    have hahead := ahead_cons hs hk hi hknown (by rw [hf]; rfl)
    rw [failures, failures, hahead, List.filterMap_cons_some (failure?_of_error he)]
    show (b.left ++ [(key, error)]) ++ _ = _
    rw [List.append_assoc, List.singleton_append]
  | @enter owner key pending stack component hs hk he =>
    have hi : (entryOf? entries key).isSome := by
      obtain ⟨e, he, -⟩ := Option.bind_eq_some_iff.1 he
      rw [he]
      rfl
    have hb : becomes entries key := by
      rw [becomes, he]
      rfl
    have hknown : ∀ k, k ∈ ((b.withStack (⟨owner, pending⟩ :: stack)).register key component
        (needs entries key)).known ↔ k ∈ key :: b.known := by
      intro k
      rw [known_register, List.mem_append, List.mem_append, List.mem_singleton, List.mem_cons,
        known, List.mem_append]
      show (k ∈ b.registered ∨ k = key) ∨ k ∈ b.refused ↔ _
      tauto
    have hahead := ahead_cons hs hk hi hknown (by rw [follow, if_pos hb]; rfl)
    rw [failures, failures, hahead, List.filterMap_cons_none (failure?_of_becomes hb)]
    rfl

/-- **A run leaves out what fails along the walk, in this order.** -/
theorem left_run (entries : List Entry) (candidates : List Json) :
    (run entries (.start candidates)).left
      = (firsts (Walk.stops id (follow entries) (entries.map (·.key)) [] candidates)).filterMap
          (failure? entries) := by
  obtain ⟨hfail, hend⟩ : failures entries (run entries (.start candidates))
        = failures entries (.start candidates)
      ∧ (run entries (.start candidates)).stack = [] :=
    run_induction (P := fun b => failures entries b = failures entries (.start candidates))
      (fun _ _ hb hm => (failures_move hm).trans hb) rfl
  have hw : (start candidates).waiting = candidates := by simp [start, waiting]
  -- nothing is ahead at the end, and nothing has been left out at the start
  rw [failures, failures, ahead, ahead, waiting, hend, hw] at hfail
  simpa [Walk.stops, start, known, registered, refused] using hfail

end Builder

namespace Result

variable {r : Result} {key : Json}

/-! ## §3. Results. -/

/-- Where the walk goes from a key: to what its package depends on, if this can
be converted. -/
def follow (r : Result) (key : Json) : List Json :=
  if r.isConvertible key then r.dependencies key else []

/-- The depth-first walk over the keys of a result, from the candidates in the
order of the index. -/
def walk (r : Result) : List (Stop Json) :=
  Walk.stops id r.follow r.keys [] (r.keys.filter r.isCandidate)

/-- Why the last package of a key cannot be converted, if it cannot. -/
def failure? (r : Result) (key : Json) : Option ConversionError :=
  (r.lastPackage? key).bind fun p =>
    match p.component r.type key (r.vulnerabilitiesOf key) with
    | .error error => some error
    | .ok _ => none

/-- The skip of a key, if its package cannot be converted. -/
def skip? (r : Result) (key : Json) : Option Skip :=
  (r.failure? key).map fun error => ⟨key, error, r.target⟩

/-- A skip carries its key. -/
theorem key_of_skip? {s : Skip} (h : r.skip? key = some s) : s.key = key := by
  obtain ⟨error, -, rfl⟩ := Option.map_eq_some_iff.1 h
  rfl

theorem follow_entries (r : Result) : Builder.follow r.entries = r.follow := by
  funext key
  rw [Builder.follow, follow, becomes_entries, needs_entries]

theorem failure?_entries (r : Result) (key : Json) :
    Builder.failure? r.entries key = (r.failure? key).map fun error => (key, error) := by
  rw [Builder.failure?, failure?, entryOf?_entries]
  cases r.lastPackage? key with
  | none => rfl
  | some p =>
    rw [Option.map_some, Option.bind_some, Option.bind_some, entry]
    cases p.component r.type key (r.vulnerabilitiesOf key) <;> rfl

/-- **A result leaves out what fails along the walk, in this order.** -/
theorem skipped_eq (r : Result) : r.skipped = (firsts r.walk).filterMap r.skip? := by
  rw [skipped, built, Builder.left_run, follow_entries, keys_entries, candidates_eq,
    List.map_filterMap]
  show (firsts r.walk).filterMap _ = _
  congr 1
  funext key
  rw [failure?_entries, skip?, Option.map_map]
  rfl

theorem nodup_key_skipped (r : Result) : (r.skipped.map (·.key)).Nodup := by
  have hwalk : (firsts r.walk).Nodup := by
    have h := Walk.nodup_firsts id r.follow r.keys [] (r.keys.filter r.isCandidate)
    rwa [List.map_id] at h
  rw [skipped_eq, List.map_filterMap]
  refine hwalk.filterMap fun k l key hk hl => ?_
  -- a key that is left out is the one that was met
  obtain ⟨s, hs, rfl⟩ := Option.map_eq_some_iff.1 hk
  obtain ⟨t, ht, he⟩ := Option.map_eq_some_iff.1 hl
  rw [← key_of_skip? hs, ← key_of_skip? ht, he]

/-- What is reached is visited, and can be converted. -/
theorem reachable_iff_visited : r.Reachable key ↔ r.Visited key ∧ r.isConvertible key := by
  constructor
  · intro h
    refine ⟨?_, h.isConvertible⟩
    cases h with
    | candidate hc _ => exact .inl hc
    | dependency ho hd _ => exact .inr ⟨_, ho, hd⟩
  · rintro ⟨hc | ⟨owner, ho, hd⟩, hconv⟩
    · exact .candidate hc hconv
    · exact .dependency ho hd hconv

/-- What has a skip is indexed, and cannot be converted. -/
theorem not_isConvertible_of_skip? {s : Skip} (h : r.skip? key = some s) :
    key ∈ r.keys ∧ ¬ r.isConvertible key := by
  obtain ⟨error, he, -⟩ := Option.map_eq_some_iff.1 h
  obtain ⟨p, hp, he⟩ := Option.bind_eq_some_iff.1 he
  rw [mem_keys_iff, isConvertible, converted?, hp, Option.bind_some]
  cases hc : p.component r.type key (r.vulnerabilitiesOf key) with
  | error error => simp [Except.toOption]
  | ok c => simp [hc] at he

/-- **The skips are those of the visited keys that cannot be converted.** -/
theorem mem_skipped_iff {s : Skip} :
    s ∈ r.skipped ↔ r.Visited s.key ∧ r.skip? s.key = some s := by
  have hskip : ∀ t ∈ r.skipped, r.skip? t.key = some t := by
    intro t ht
    rw [skipped_eq] at ht
    obtain ⟨k, -, hk⟩ := List.mem_filterMap.1 ht
    rw [key_of_skip? hk, hk]
  constructor
  · intro hs
    have hr : s.key ∈ r.built.refused := map_key_skipped (r := r) ▸ List.mem_map_of_mem hs
    exact ⟨(mem_refused_iff.1 hr).1, hskip s hs⟩
  · rintro ⟨hv, hs⟩
    have hr : s.key ∈ r.skipped.map (·.key) := by
      rw [map_key_skipped, mem_refused_iff]
      exact ⟨hv, not_isConvertible_of_skip? hs⟩
    -- the key has one skip only
    obtain ⟨t, ht, he⟩ := List.mem_map.1 hr
    have hts := hskip t ht
    rw [he, hs, Option.some.injEq] at hts
    rw [hts]
    exact ht

/-- What it is for the skips of a result to be exact. -/
structure SkipTrace (r : Result) : Prop where
  /-- They come as the walk first meets their keys. -/
  in_order : r.skipped = (firsts r.walk).filterMap r.skip?
  /-- No key is left out twice. -/
  once : (r.skipped.map (·.key)).Nodup
  /-- A key is left out just if it is visited and its package cannot be
  converted, and the reason is the error of the conversion. -/
  mem_iff : ∀ s, s ∈ r.skipped ↔ r.Visited s.key ∧ r.skip? s.key = some s
  /-- Visits go on from the visited keys that can be converted. -/
  reachable_iff : ∀ owner, r.Reachable owner ↔ r.Visited owner ∧ r.isConvertible owner
  /-- No component that is reached stands for a key that is left out. -/
  apart : ∀ i, r.forest.graph.Reaches r.forest.roots i → r.keyAt i ∉ r.skipped.map (·.key)

/-- **The skips of a result are exact.** -/
theorem skipTrace (r : Result) : r.SkipTrace where
  in_order := r.skipped_eq
  once := r.nodup_key_skipped
  mem_iff _ := mem_skipped_iff
  reachable_iff _ := reachable_iff_visited
  apart i _ := by
    rw [map_key_skipped, mem_refused_iff]
    exact fun h => h.2.2 (r.reachable_keyAt i).isConvertible

end Result

end ComponentGraph
