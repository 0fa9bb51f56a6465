/-
  ComponentGraph.Proofs.Package.Skipping
  ────────────────────────────────
  **WHICH KEYS ARE LEFT OUT.**

  Building asks for the candidates, and for all that a registered component
  depends on.  Whatever it is due to ask for waits on the stack until it is
  known, or turns out not to be indexed (`Asked`).  So when no frame is left,
  what could not be converted was asked for, and what was asked for and cannot
  be converted has been left out:

      Builder.mem_refused_run_iff — the keys that a run leaves out
      Result.mem_refused_iff      — the keys that a result leaves out
-/
import ComponentGraph.Proofs.Package.Forest

namespace ComponentGraph

namespace Builder

open Result (Entry entryOf?)

variable {entries : List Entry} {candidates : List Json} {b b' : Builder}

/-! ## §1. What is due, and what waits. -/

/-- The keys that the frames have still to follow. -/
def waiting (b : Builder) : List Json := b.stack.flatMap (·.pending)

/-- Is building due to ask for this key, for what is registered so far? -/
def Due (entries : List Entry) (candidates : List Json) (b : Builder) (key : Json) : Prop :=
  key ∈ candidates ∨ ∃ owner ∈ b.registered, key ∈ needs entries owner

/-- The more is registered, the more is due. -/
theorem Due.mono {key : Json} (h : Due entries candidates b key)
    (hsub : ∀ k ∈ b.registered, k ∈ b'.registered) : Due entries candidates b' key := by
  rcases h with h | ⟨owner, ho, hn⟩
  · exact .inl h
  · exact .inr ⟨owner, hsub owner ho, hn⟩

/-- What is left out failed and was due; what is due waits, is known, or is not
indexed. -/
structure Asked (entries : List Entry) (candidates : List Json) (b : Builder) : Prop where
  failed : ∀ q ∈ b.left, (entryOf? entries q.1).map (·.outcome) = some (.error q.2)
  refused : ∀ key ∈ b.refused, Due entries candidates b key
  waits : ∀ key ∈ b.waiting, Due entries candidates b key
  met : ∀ key, Due entries candidates b key →
    key ∈ b.waiting ∨ key ∈ b.known ∨ entryOf? entries key = none

theorem Asked.start (entries : List Entry) (candidates : List Json) :
    Asked entries candidates (.start candidates) where
  failed := by simp [Builder.start]
  refused := by simp [Builder.start, Builder.refused]
  waits := by
    intro key hk
    exact .inl (by simpa [Builder.start, waiting] using hk)
  met := by
    rintro key (hk | ⟨owner, ho, -⟩)
    · exact .inl (by simpa [Builder.start, waiting] using hk)
    · simp [Builder.start, registered] at ho

/-! ## §2. The moves. -/

/-- What waits may go, once it is known or not indexed. -/
theorem Asked.settle (h : Asked entries candidates b) (hr : b'.registered = b.registered)
    (hl : b'.left = b.left) (hsub : ∀ k ∈ b'.waiting, k ∈ b.waiting)
    (hgone : ∀ k ∈ b.waiting, k ∈ b'.waiting ∨ k ∈ b.known ∨ entryOf? entries k = none) :
    Asked entries candidates b' := by
  have hk : b'.known = b.known := by rw [known, known, Builder.refused, Builder.refused, hr, hl]
  have hd : ∀ key, Due entries candidates b' key ↔ Due entries candidates b key := by
    intro key
    rw [Due, Due, hr]
  refine ⟨?_, ?_, ?_, ?_⟩
  · rw [hl]
    exact h.failed
  · intro key hkey
    rw [Builder.refused, hl] at hkey
    exact (hd key).2 (h.refused key hkey)
  · intro key hkey
    exact (hd key).2 (h.waits key (hsub key hkey))
  · intro key hkey
    rw [hk]
    rcases h.met key ((hd key).1 hkey) with hw | hm
    · exact hgone key hw
    · exact .inr hm

theorem waiting_cons {owner : Option Json} {pending : List Json} {stack : List Frame}
    (hs : b.stack = ⟨owner, pending⟩ :: stack) :
    b.waiting = pending ++ stack.flatMap (·.pending) := by
  rw [waiting, hs]
  rfl

/-- The frame on top goes on past a key that is known, or not indexed. -/
theorem Asked.goOn (h : Asked entries candidates b) {owner : Option Json} {key : Json}
    {pending : List Json} {stack : List Frame} (hs : b.stack = ⟨owner, key :: pending⟩ :: stack)
    (hs' : b'.stack = ⟨owner, pending⟩ :: stack) (hr : b'.registered = b.registered)
    (hl : b'.left = b.left) (hk : key ∈ b.known ∨ entryOf? entries key = none) :
    Asked entries candidates b' := by
  apply h.settle hr hl
  · intro k hw
    rw [waiting_cons hs'] at hw
    rw [waiting_cons hs]
    exact List.mem_cons_of_mem _ hw
  · intro k hw
    rw [waiting_cons hs, List.cons_append] at hw
    rw [waiting_cons hs']
    rcases List.mem_cons.1 hw with rfl | hw
    · exact .inr hk
    · exact .inl hw

/-- A frame that is done has nothing that waits. -/
theorem Asked.drop (h : Asked entries candidates b) {owner : Option Json} {stack : List Frame}
    (hs : b.stack = ⟨owner, []⟩ :: stack) (hs' : b'.stack = stack)
    (hr : b'.registered = b.registered) (hl : b'.left = b.left) :
    Asked entries candidates b' := by
  have hw : b'.waiting = b.waiting := by
    rw [waiting_cons hs, waiting, hs']
    rfl
  exact h.settle hr hl (fun k hk => hw ▸ hk) fun k hk => .inl (hw ▸ hk)

theorem Asked.leave (h : Asked entries candidates b) {owner : Option Json} {key : Json}
    {pending : List Json} {stack : List Frame} {error : ConversionError}
    (hs : b.stack = ⟨owner, key :: pending⟩ :: stack)
    (he : (entryOf? entries key).map (·.outcome) = some (.error error)) :
    Asked entries candidates ((b.withStack (⟨owner, pending⟩ :: stack)).leave key error) := by
  have hw : b.waiting = key :: (pending ++ stack.flatMap (·.pending)) := waiting_cons hs
  have hdue : Due entries candidates b key := h.waits key (hw ▸ List.mem_cons_self)
  refine ⟨?_, ?_, ?_, ?_⟩
  · intro q hq
    rcases List.mem_append.1 hq with hq | hq
    · exact h.failed q hq
    · rw [List.mem_singleton] at hq
      subst hq
      exact he
  · intro k hk
    have hk : k ∈ b.refused ∨ k = key := by
      simpa [Builder.leave, Builder.refused, Builder.withStack] using hk
    rcases hk with hk | rfl
    · exact h.refused k hk
    · exact hdue
  · intro k hk
    exact h.waits k (hw ▸ List.mem_cons_of_mem _ hk)
  · intro k hk
    rw [known_leave]
    rcases h.met k hk with hm | hm | hm
    · -- the one that waited first is known now
      rcases List.mem_cons.1 (hw ▸ hm) with rfl | hm
      · exact .inr (.inl (List.mem_append_right _ List.mem_cons_self))
      · exact .inl hm
    · exact .inr (.inl (List.mem_append_left _ hm))
    · exact .inr (.inr hm)

theorem Asked.register (h : Asked entries candidates b) {owner : Option Json} {key : Json}
    {pending : List Json} {stack : List Frame} (component : Component)
    (hs : b.stack = ⟨owner, key :: pending⟩ :: stack) :
    Asked entries candidates ((b.withStack (⟨owner, pending⟩ :: stack)).register key component
      (needs entries key)) := by
  have hw : b.waiting = key :: (pending ++ stack.flatMap (·.pending)) := waiting_cons hs
  have hr : ((b.withStack (⟨owner, pending⟩ :: stack)).register key component
      (needs entries key)).registered = b.registered ++ [key] := by
    simp [Builder.register, Builder.withStack, registered]
  have hmono : ∀ {k}, Due entries candidates b k →
      Due entries candidates ((b.withStack (⟨owner, pending⟩ :: stack)).register key component
        (needs entries key)) k :=
    fun hk => hk.mono fun x hx => hr ▸ List.mem_append_left _ hx
  refine ⟨h.failed, fun k hk => hmono (h.refused k hk), ?_, ?_⟩
  · intro k hk
    rcases List.mem_append.1 hk with hk | hk
    · -- what the new component depends on is due from now on
      exact .inr ⟨key, hr ▸ List.mem_append_right _ List.mem_cons_self, hk⟩
    · exact hmono (h.waits k (hw ▸ List.mem_cons_of_mem _ hk))
  · intro k hk
    have hsplit : k ∈ needs entries key ∨ Due entries candidates b k := by
      rcases hk with hk | ⟨o, ho, hn⟩
      · exact .inr (.inl hk)
      · rw [hr, List.mem_append, List.mem_singleton] at ho
        rcases ho with ho | rfl
        · exact .inr (.inr ⟨o, ho, hn⟩)
        · exact .inl hn
    rw [known_register]
    rcases hsplit with hn | hd
    · exact .inl (List.mem_append_left _ hn)
    · rcases h.met k hd with hm | hm | hm
      · rcases List.mem_cons.1 (hw ▸ hm) with rfl | hm
        · exact .inr (.inl (by simp))
        · exact .inl (List.mem_append_right _ hm)
      · refine .inr (.inl ?_)
        rcases List.mem_append.1 hm with hm | hm
        · exact List.mem_append_left _ (List.mem_append_left _ hm)
        · exact List.mem_append_right _ hm
      · exact .inr (.inr hm)

/-- **Every move asks for what is due.** -/
theorem Asked.move (h : Asked entries candidates b) (hm : Move entries b b') :
    Asked entries candidates b' := by
  cases hm with
  | finish hs hend => exact h.drop hs rfl rfl rfl
  | hand hs => exact h.drop hs (stack_attach ..) (registered_attach ..) (left_attach ..)
  | pass hs hk =>
    refine h.goOn hs rfl rfl rfl ?_
    rcases hk with hk | hk
    · exact .inr hk
    · exact .inl (List.mem_append_right _ hk)
  | meet hs hk =>
    exact h.goOn hs (stack_attach ..) (registered_attach ..) (left_attach ..)
      (.inl (List.mem_append_left _ hk))
  | refuse hs hk he => exact h.leave hs he
  | enter hs hk he => exact h.register _ hs

/-- **A run leaves out what it had to ask for and cannot convert.** -/
theorem mem_refused_run_iff {key : Json} : key ∈ (run entries (.start candidates)).refused
    ↔ (key ∈ candidates ∨ ∃ owner, Wanted entries candidates owner ∧ key ∈ needs entries owner)
      ∧ ∃ error, (entryOf? entries key).map (·.outcome) = some (.error error) := by
  obtain ⟨hasked, hend⟩ : Asked entries candidates (run entries (.start candidates))
      ∧ (run entries (.start candidates)).stack = [] :=
    run_induction (fun _ _ hb hm => hb.move hm) (Asked.start entries candidates)
  have hfinal := run_finished entries candidates
  have hdue : Due entries candidates (run entries (.start candidates)) key ↔ key ∈ candidates
      ∨ ∃ owner, Wanted entries candidates owner ∧ key ∈ needs entries owner := by
    simp only [Due, hfinal.registered]
  rw [← hdue]
  constructor
  · intro hk
    obtain ⟨q, hq, rfl⟩ := List.mem_map.1 hk
    exact ⟨hasked.refused _ hk, q.2, hasked.failed q hq⟩
  · rintro ⟨hd, error, he⟩
    rcases hasked.met key hd with hw | hk | hn
    · rw [waiting, hend] at hw
      contradiction
    · rcases List.mem_append.1 hk with hk | hk
      · -- who is registered was converted
        have hb := hfinal.sound.becomes hk
        rw [Builder.becomes, outcomeOf?_of_error he] at hb
        contradiction
      · exact hk
    · rw [hn] at he
      contradiction

end Builder

namespace Result

variable {r : Result} {key : Json}

/-! ## §3. Results. -/

/-- The keys at which building looks: the candidates, and what reachable
packages depend on. -/
def Visited (r : Result) (key : Json) : Prop :=
  r.isCandidate key ∨ ∃ owner, r.Reachable owner ∧ key ∈ r.dependencies owner

/-- **A result leaves out the indexed keys that are visited and cannot be
converted.** -/
theorem mem_refused_iff : key ∈ r.built.refused
    ↔ r.Visited key ∧ key ∈ r.keys ∧ ¬ r.isConvertible key := by
  have hentry : (∃ error, (entryOf? r.entries key).map (·.outcome) = some (.error error))
      ↔ key ∈ r.keys ∧ ¬ r.isConvertible key := by
    rw [entryOf?_entries, mem_keys_iff, isConvertible, converted?]
    cases r.lastPackage? key with
    | none => simp
    | some p =>
      rw [Option.bind_some]
      cases hp : p.component r.type key (r.vulnerabilitiesOf key) with
      | error e => simp [entry, hp, Except.toOption]
      | ok c => simp [entry, hp, Except.toOption]
  rw [built, Builder.mem_refused_run_iff, hentry]
  simp only [wanted_iff, needs_entries]
  rw [candidates_eq, List.mem_filter, Visited]
  constructor
  · rintro ⟨⟨-, hc⟩ | hd, he⟩
    · exact ⟨.inl hc, he⟩
    · exact ⟨.inr hd, he⟩
  · rintro ⟨hc | hd, he⟩
    · exact ⟨.inl ⟨he.1, hc⟩, he⟩
    · exact ⟨.inr hd, he⟩

theorem map_key_skipped : r.skipped.map (·.key) = r.built.refused := by
  rw [skipped, List.map_map]
  rfl

end Result

end ComponentGraph
