/-
  ComponentGraph.Proofs.Package.Building
  ────────────────────────────────
  **WHAT BUILDING KEEPS TRUE.**

  A step of the builder is one of six moves (`Move`).  Three invariants are
  kept by every move, hence by every run:

      Sound     — what is registered is converted, once each, and every frame
                  belongs to a registered component
      Complete  — the children that have arrived at a component, and then
                  those it is still owed, are all it depends on
      Traced    — what is registered can be reached from the candidates

  A component on a cycle is handed out while it is still owed children.  What
  it is owed stands on the stack: the component being built for it, and the
  dependencies that its frame has still to follow.  When the stack is empty
  nobody is owed anything, so every list of children is complete.
-/
import ComponentGraph.Package.Builder
import ComponentGraph.Proofs.Table

namespace ComponentGraph

namespace Builder

open Result (Entry entryOf?)

variable {entries : List Entry} {candidates : List Json} {b b' : Builder}

/-! ## §1. What entries say of a key. -/

/-- The component of a key, if its package can be converted. -/
def outcomeOf? (entries : List Entry) (key : Json) : Option Component :=
  (entryOf? entries key).bind (·.outcome.toOption)

/-- Does the key become a component? -/
def becomes (entries : List Entry) (key : Json) : Bool := (outcomeOf? entries key).isSome

/-- A key whose package cannot be converted has no component. -/
theorem outcomeOf?_of_error {key : Json} {error : ConversionError}
    (he : (entryOf? entries key).map (·.outcome) = some (.error error)) :
    outcomeOf? entries key = none := by
  obtain ⟨e, he, ho⟩ := Option.map_eq_some_iff.1 he
  simp [outcomeOf?, he, ho, Except.toOption]

/-- What the package of a key depends on. -/
def needs (entries : List Entry) (key : Json) : List Json :=
  ((entryOf? entries key).map (·.package.dependsOn)).getD []

/-- The keys that building must reach: the candidates that become components,
and what these depend on, as far as it becomes a component. -/
inductive Wanted (entries : List Entry) (candidates : List Json) : Json → Prop where
  | candidate {key : Json} : key ∈ candidates → becomes entries key →
      Wanted entries candidates key
  | needed {key dep : Json} : Wanted entries candidates key → dep ∈ needs entries key →
      becomes entries dep → Wanted entries candidates dep

/-! ## §2. The moves. -/

/-- What one step can do. -/
inductive Move (entries : List Entry) (b : Builder) : Builder → Prop where
  /-- The list of roots is complete, or nobody waits for the component. -/
  | finish {owner : Option Json} {stack : List Frame} (hs : b.stack = ⟨owner, []⟩ :: stack)
      (hend : owner = none ∨ stack = []) : Move entries b (b.withStack stack)
  /-- A complete component goes to the frame below. -/
  | hand {key : Json} {below : Frame} {stack : List Frame}
      (hs : b.stack = ⟨some key, []⟩ :: below :: stack) :
      Move entries b ((b.withStack (below :: stack)).attach below.owner key)
  /-- The next dependency is not in the index, or was refused. -/
  | pass {owner : Option Json} {key : Json} {pending : List Json} {stack : List Frame}
      (hs : b.stack = ⟨owner, key :: pending⟩ :: stack)
      (hk : entryOf? entries key = none ∨ key ∈ b.refused) :
      Move entries b (b.withStack (⟨owner, pending⟩ :: stack))
  /-- The next dependency is registered, complete or not. -/
  | meet {owner : Option Json} {key : Json} {pending : List Json} {stack : List Frame}
      (hs : b.stack = ⟨owner, key :: pending⟩ :: stack) (hk : key ∈ b.registered) :
      Move entries b ((b.withStack (⟨owner, pending⟩ :: stack)).attach owner key)
  /-- The next dependency cannot be converted. -/
  | refuse {owner : Option Json} {key : Json} {pending : List Json} {stack : List Frame}
      {error : ConversionError} (hs : b.stack = ⟨owner, key :: pending⟩ :: stack)
      (hk : key ∉ b.known) (he : (entryOf? entries key).map (·.outcome) = some (.error error)) :
      Move entries b ((b.withStack (⟨owner, pending⟩ :: stack)).leave key error)
  /-- The next dependency becomes a component, whose own dependencies are next. -/
  | enter {owner : Option Json} {key : Json} {pending : List Json} {stack : List Frame}
      {component : Component} (hs : b.stack = ⟨owner, key :: pending⟩ :: stack)
      (hk : key ∉ b.known) (he : outcomeOf? entries key = some component) :
      Move entries b ((b.withStack (⟨owner, pending⟩ :: stack)).register key component
        (needs entries key))

/-- **A step is a move.** -/
theorem step_move (h : b.stack ≠ []) : Move entries b (b.step entries) := by
  unfold step
  split
  · contradiction
  · rename_i owner stack hs
    match owner, stack with
    | none, stack => exact .finish hs (.inl rfl)
    | some key, [] => exact .finish hs (.inr rfl)
    | some key, below :: stack => exact .hand hs
  · rename_i owner key pending stack hs
    unfold ask
    split
    · rename_i hn
      exact .pass hs (.inl hn)
    · rename_i e he
      split
      · rename_i hr
        exact .meet hs hr
      · split
        · rename_i hf
          exact .pass hs (.inr hf)
        · rename_i hr hf
          have hk : key ∉ b.known := by
            simp only [known, List.mem_append, not_or]
            exact ⟨hr, hf⟩
          have hn : needs entries key = e.package.dependsOn := by simp [needs, he]
          split
          · rename_i error ho
            exact .refuse hs hk (by simp [he, ho])
          · rename_i component ho
            rw [← hn]
            exact .enter hs hk (by simp [outcomeOf?, he, ho, Except.toOption])

/-- **What holds at the start and is kept by every move holds at the end,
when no frame is left.** -/
theorem run_induction {P : Builder → Prop} (hmove : ∀ b b', P b → Move entries b b' → P b')
    (hb : P b) : P (b.run entries) ∧ (b.run entries).stack = [] := by
  fun_induction run entries b with
  | case1 b h => exact ⟨hb, h⟩
  | case2 b h ih => exact ih (hmove b _ hb (step_move h))

/-! ## §3. What a move leaves as it was. -/

@[simp] theorem refused_attach (b : Builder) (owner : Option Json) (child : Json) :
    (b.attach owner child).refused = b.refused := by
  simp [refused]

@[simp] theorem roots_attach_some (b : Builder) (key child : Json) :
    (b.attach (some key) child).roots = b.roots := rfl

/-- A draft after a child has arrived at an owner. -/
def arrived (owner : Option Json) (child : Json) (d : Draft) : Draft :=
  if owner = some d.key then { d with children := arrive d.children child } else d

theorem drafts_attach (b : Builder) (owner : Option Json) (child : Json) :
    (b.attach owner child).drafts = b.drafts.map (arrived owner child) := by
  cases owner with
  | none =>
    show b.drafts = b.drafts.map (arrived none child)
    have h : ∀ d ∈ b.drafts, arrived none child d = id d := fun d _ => if_neg (by simp)
    rw [List.map_congr_left h, List.map_id]
  | some key =>
    apply List.map_congr_left
    intro d _
    by_cases h : d.key = key
    · simp [arrived, h]
    · simp [arrived, h, Ne.symm h]

@[simp] theorem key_arrived (owner : Option Json) (child : Json) (d : Draft) :
    (arrived owner child d).key = d.key := by
  unfold arrived
  split <;> rfl

@[simp] theorem component_arrived (owner : Option Json) (child : Json) (d : Draft) :
    (arrived owner child d).component = d.component := by
  unfold arrived
  split <;> rfl

theorem mem_arrive {keys : List Json} {key x : Json} :
    x ∈ arrive keys key ↔ x ∈ keys ∨ x = key := by
  unfold arrive
  split
  · rename_i h
    constructor
    · exact .inl
    · rintro (hx | rfl)
      · exact hx
      · exact h
  · simp

/-! ## §4. Soundness. -/

/-- What is registered is converted, once each, and every frame belongs to a
registered component. -/
structure Sound (entries : List Entry) (b : Builder) : Prop where
  converted : ∀ d ∈ b.drafts, outcomeOf? entries d.key = some d.component
  refused : ∀ key ∈ b.refused, outcomeOf? entries key = none
  nodup : b.registered.Nodup
  owners : (b.stack.map (·.owner)).Nodup
  owned : ∀ key, some key ∈ b.stack.map (·.owner) → key ∈ b.registered

theorem Sound.start (entries : List Entry) (candidates : List Json) :
    Sound entries (.start candidates) where
  converted := by simp [Builder.start]
  refused := by simp [Builder.start, Builder.refused]
  nodup := List.nodup_nil
  owners := by simp [Builder.start]
  owned := by simp [Builder.start]

/-- Only registered keys become components. -/
theorem Sound.becomes (h : Sound entries b) {key : Json} (hk : key ∈ b.registered) :
    becomes entries key := by
  obtain ⟨d, hd, rfl⟩ := List.mem_map.1 hk
  rw [Builder.becomes, h.converted d hd]
  rfl

theorem Sound.attach (h : Sound entries b) (owner : Option Json) (child : Json) :
    Sound entries (b.attach owner child) where
  converted := by
    intro d' hd'
    rw [drafts_attach] at hd'
    obtain ⟨d, hd, rfl⟩ := List.mem_map.1 hd'
    rw [key_arrived, component_arrived]
    exact h.converted d hd
  refused := by
    rw [refused_attach]
    exact h.refused
  nodup := by
    rw [registered_attach]
    exact h.nodup
  owners := by
    rw [stack_attach]
    exact h.owners
  owned := by
    rw [stack_attach, registered_attach]
    exact h.owned

/-- Frames may go, and go on. -/
theorem Sound.withStack (h : Sound entries b) {stack : List Frame}
    (hs : (stack.map (·.owner)).Sublist (b.stack.map (·.owner))) :
    Sound entries (b.withStack stack) where
  converted := h.converted
  refused := h.refused
  nodup := h.nodup
  owners := h.owners.sublist hs
  owned := fun key hk => h.owned key (hs.subset hk)

/-- The frame on top is done. -/
theorem Sound.drop (h : Sound entries b) {f : Frame} {stack : List Frame}
    (hs : b.stack = f :: stack) : Sound entries (b.withStack stack) := by
  apply h.withStack
  rw [hs]
  exact List.sublist_cons_self ..

/-- The frame on top goes on to its next key. -/
theorem Sound.goOn (h : Sound entries b) {owner : Option Json} {key : Json}
    {pending : List Json} {stack : List Frame} (hs : b.stack = ⟨owner, key :: pending⟩ :: stack) :
    Sound entries (b.withStack (⟨owner, pending⟩ :: stack)) := by
  apply h.withStack
  rw [hs]
  exact List.Sublist.refl _

theorem Sound.leave (h : Sound entries b) {key : Json} (error : ConversionError)
    (he : outcomeOf? entries key = none) : Sound entries (b.leave key error) where
  converted := h.converted
  refused := by
    intro k hk
    have hk : k ∈ b.refused ∨ k = key := by simpa [Builder.leave, Builder.refused] using hk
    rcases hk with hk | rfl
    · exact h.refused k hk
    · exact he
  nodup := h.nodup
  owners := h.owners
  owned := h.owned

theorem Sound.register (h : Sound entries b) {key : Json} {component : Component}
    {dependsOn : List Json} (hk : key ∉ b.known)
    (he : outcomeOf? entries key = some component) :
    Sound entries (b.register key component dependsOn) := by
  have hr : (b.register key component dependsOn).registered = b.registered ++ [key] := by
    simp [Builder.register, registered]
  have hn : key ∉ b.registered := fun hm => hk (List.mem_append_left _ hm)
  refine ⟨?_, h.refused, ?_, ?_, ?_⟩
  · intro d hd
    rcases List.mem_append.1 hd with hd | hd
    · exact h.converted d hd
    · rw [List.mem_singleton] at hd
      subst hd
      exact he
  · rw [hr, List.nodup_append_comm, List.singleton_append, List.nodup_cons]
    exact ⟨hn, h.nodup⟩
  · show (some key :: b.stack.map (·.owner)).Nodup
    rw [List.nodup_cons]
    exact ⟨fun hm => hn (h.owned key hm), h.owners⟩
  · intro k hm
    rw [hr, List.mem_append, List.mem_singleton]
    rcases List.mem_cons.1 hm with he | hm
    · exact .inr (Option.some.inj he)
    · exact .inl (h.owned k hm)

/-- **Every move keeps what is built sound.** -/
theorem Sound.move (h : Sound entries b) (hm : Move entries b b') : Sound entries b' := by
  cases hm with
  | finish hs hend => exact h.drop hs
  | hand hs => exact (h.drop hs).attach ..
  | pass hs hk => exact h.goOn hs
  | meet hs hk => exact (h.goOn hs).attach ..
  | refuse hs hk he => exact (h.goOn hs).leave _ (outcomeOf?_of_error he)
  | enter hs hk he => exact (h.goOn hs).register hk he

/-! ## §5. Completeness. -/

/-- The keys of a list that become components arrive one after the other. -/
def collect (entries : List Entry) (children pending : List Json) : List Json :=
  (pending.filter (Builder.becomes entries)).foldl arrive children

theorem collect_cons_pos {children pending : List Json} {key : Json}
    (hk : Builder.becomes entries key) :
    collect entries children (key :: pending)
      = collect entries (arrive children key) pending := by
  simp [collect, hk]

/-- **From nothing, all that becomes a component arrives, each once and in
order.** -/
theorem collect_eq (pending : List Json) :
    collect entries [] pending = (pending.filter (Builder.becomes entries)).eraseDups := by
  have h : ∀ keys : List Json, keys.foldl arrive [] = keys.eraseDups := by
    intro keys
    induction keys using List.reverseRecOn with
    | nil => rfl
    | append_singleton keys key ih =>
      rw [List.foldl_concat, ih, eraseDups_concat, arrive]
      simp only [List.mem_eraseDups]
  exact h _

/-- What an owner is still owed: the component that is being built for it, and
what its frame has still to follow.  `above` is the component of the frame
above the first one. -/
def owedTo (owner : Option Json) : Option Json → List Frame → List Json
  | _, [] => []
  | above, f :: stack =>
    if f.owner = owner then above.toList ++ f.pending else owedTo owner f.owner stack

theorem owedTo_cons_self (owner above : Option Json) (pending : List Json)
    (stack : List Frame) :
    owedTo owner above (⟨owner, pending⟩ :: stack) = above.toList ++ pending := by
  simp [owedTo]

theorem owedTo_cons_ne {owner other : Option Json} (h : other ≠ owner)
    (above : Option Json) (pending : List Json) (stack : List Frame) :
    owedTo owner above (⟨other, pending⟩ :: stack) = owedTo owner other stack := by
  simp [owedTo, h]

theorem owedTo_of_not_mem {owner : Option Json} {stack : List Frame}
    (h : owner ∉ stack.map (·.owner)) (above : Option Json) :
    owedTo owner above stack = [] := by
  induction stack generalizing above with
  | nil => rfl
  | cons f stack ih =>
    rw [List.map_cons, List.mem_cons, not_or] at h
    rw [owedTo, if_neg (Ne.symm h.1), ih h.2]

/-- What has arrived, and then what is still owed, is all there is. -/
structure Complete (entries : List Entry) (candidates : List Json) (b : Builder) : Prop where
  children : ∀ d ∈ b.drafts,
    collect entries d.children (owedTo (some d.key) none b.stack)
      = collect entries [] (needs entries d.key)
  roots : b.roots ++ (owedTo none none b.stack).filter (Builder.becomes entries)
    = candidates.filter (Builder.becomes entries)

theorem Complete.start (entries : List Entry) (candidates : List Json) :
    Complete entries candidates (.start candidates) where
  children := by simp [Builder.start]
  roots := by simp [Builder.start, owedTo]

/-- The stack may change as long as every owner is owed the same. -/
theorem Complete.withStack (h : Complete entries candidates b) {stack : List Frame}
    (hs : ∀ owner, (owedTo owner none b.stack).filter (Builder.becomes entries)
      = (owedTo owner none stack).filter (Builder.becomes entries)) :
    Complete entries candidates (b.withStack stack) where
  children := by
    intro d hd
    rw [← h.children d hd, collect, collect, hs]
    rfl
  roots := by
    rw [← h.roots, hs]
    rfl

/-- A component arrives where it was owed. -/
theorem Complete.attach (h : Complete entries candidates b) {stack : List Frame}
    {owner : Option Json} {child : Json} (hc : Builder.becomes entries child)
    (hown : owedTo owner none b.stack = child :: owedTo owner none stack)
    (hother : ∀ o, o ≠ owner → owedTo o none b.stack = owedTo o none stack) :
    Complete entries candidates ((b.withStack stack).attach owner child) := by
  refine ⟨?_, ?_⟩
  · intro d' hd'
    rw [drafts_attach] at hd'
    obtain ⟨d, hd, rfl⟩ := List.mem_map.1 hd'
    have hd := h.children d hd
    rw [stack_attach, key_arrived, ← hd]
    show _ = collect entries d.children (owedTo (some d.key) none b.stack)
    by_cases ho : owner = some d.key
    · -- the child moves from what is owed to what has arrived
      subst ho
      rw [hown, collect_cons_pos hc]
      simp [arrived, Builder.withStack]
    · rw [hother _ (Ne.symm ho)]
      simp [arrived, Builder.withStack, ho]
  · rw [stack_attach, ← h.roots]
    show _ ++ (owedTo none none stack).filter _ = _
    cases owner with
    | none =>
      -- the list of roots is the owner without a key
      rw [hown, List.filter_cons_of_pos hc]
      show (b.roots ++ [child]) ++ _ = _
      rw [List.append_assoc, List.singleton_append]
    | some key =>
      rw [hother none (by simp)]
      rfl

/-- A new component is owed all that its package depends on. -/
theorem Complete.register (h : Complete entries candidates b) {key : Json}
    {component : Component} {owner : Option Json} {pending : List Json} {stack : List Frame}
    (hs : b.stack = ⟨owner, key :: pending⟩ :: stack) (hk : key ∉ b.registered) :
    Complete entries candidates ((b.withStack (⟨owner, pending⟩ :: stack)).register key component
      (needs entries key)) := by
  -- the key leaves the pending keys of its frame and is built for it instead
  have hother : ∀ o, o ≠ some key →
      owedTo o none (⟨some key, needs entries key⟩ :: ⟨owner, pending⟩ :: stack)
        = owedTo o none b.stack := by
    intro o ho
    rw [hs, owedTo_cons_ne (Ne.symm ho)]
    by_cases hw : owner = o
    · rw [hw, owedTo_cons_self, owedTo_cons_self]
      rfl
    · rw [owedTo_cons_ne hw, owedTo_cons_ne hw]
  refine ⟨?_, ?_⟩
  · intro d hd
    rcases List.mem_append.1 hd with hd | hd
    · have hne : d.key ≠ key := by
        intro he
        exact hk (he ▸ List.mem_map_of_mem hd)
      show collect entries d.children (owedTo _ none (_ :: _ :: stack)) = _
      rw [hother _ (fun he => hne (Option.some.inj he))]
      exact h.children d hd
    · rw [List.mem_singleton] at hd
      subst hd
      show collect entries [] (owedTo (some key) none (⟨some key, _⟩ :: _)) = _
      rw [owedTo_cons_self]
      rfl
  · show b.roots ++ (owedTo none none (_ :: _ :: stack)).filter _ = _
    rw [hother none (by simp)]
    exact h.roots

/-- A frame that goes on past a key that becomes nothing is owed the same. -/
theorem filter_owedTo_pass {owner : Option Json} {key : Json} {pending : List Json}
    {stack : List Frame} (hk : outcomeOf? entries key = none) (o : Option Json) :
    (owedTo o none (⟨owner, key :: pending⟩ :: stack)).filter (Builder.becomes entries)
      = (owedTo o none (⟨owner, pending⟩ :: stack)).filter (Builder.becomes entries) := by
  by_cases ho : owner = o
  · subst ho
    simp [owedTo_cons_self, Builder.becomes, hk]
  · rw [owedTo_cons_ne ho, owedTo_cons_ne ho]

/-- **Every move of a sound builder keeps it complete.** -/
theorem Complete.move (h : Complete entries candidates b) (hb : Sound entries b)
    (hm : Move entries b b') : Complete entries candidates b' := by
  have ho := hb.owners
  cases hm with
  | @finish owner stack hs hend =>
    rw [hs, List.map_cons, List.nodup_cons] at ho
    apply h.withStack
    intro o
    rw [hs]
    by_cases hw : owner = o
    · -- the frame owes nothing more, and its owner has no other
      subst hw
      rw [owedTo_cons_self, owedTo_of_not_mem ho.1]
      rfl
    · rw [owedTo_cons_ne hw]
      rcases hend with rfl | rfl <;> rfl
  | @hand key below stack hs =>
    obtain ⟨lower, pending⟩ := below
    rw [hs, List.map_cons, List.nodup_cons] at ho
    have hne : some key ≠ lower := by
      intro he
      exact ho.1 (by simp [he])
    have hk : key ∈ b.registered := hb.owned key (by simp [hs])
    refine h.attach (hb.becomes hk) ?_ ?_
    · -- the finished component is what its frame was building for the one below
      rw [hs, owedTo_cons_ne hne, owedTo_cons_self, owedTo_cons_self]
      rfl
    · intro o hlo
      rw [hs]
      by_cases hw : some key = o
      · subst hw
        rw [owedTo_cons_self, owedTo_of_not_mem ho.1]
        rfl
      · rw [owedTo_cons_ne hw, owedTo_cons_ne (Ne.symm hlo), owedTo_cons_ne (Ne.symm hlo)]
  | pass hs hk =>
    apply h.withStack
    rw [hs]
    apply filter_owedTo_pass
    rcases hk with hk | hk
    · rw [outcomeOf?, hk]
      rfl
    · exact hb.refused _ hk
  | @meet owner key pending stack hs hk =>
    refine h.attach (hb.becomes hk) ?_ ?_
    · rw [hs, owedTo_cons_self, owedTo_cons_self]
      rfl
    · intro o hne
      rw [hs, owedTo_cons_ne (Ne.symm hne), owedTo_cons_ne (Ne.symm hne)]
  | refuse hs hk he =>
    have hw := h.withStack (fun o => (congrArg _ (congrArg _ hs)).trans
      (filter_owedTo_pass (outcomeOf?_of_error he) o))
    exact ⟨hw.children, hw.roots⟩
  | enter hs hk he => exact h.register hs (fun hr => hk (List.mem_append_left _ hr))

/-! ## §6. Reachability. -/

/-- What is registered was wanted, and what has arrived is registered. -/
structure Traced (entries : List Entry) (candidates : List Json) (b : Builder) : Prop where
  wanted : ∀ key ∈ b.registered, Wanted entries candidates key
  next : ∀ f ∈ b.stack, ∀ key ∈ f.pending, Builder.becomes entries key →
    Wanted entries candidates key
  children : ∀ d ∈ b.drafts, ∀ child ∈ d.children, child ∈ b.registered
  roots : ∀ key ∈ b.roots, key ∈ b.registered

theorem Traced.start (entries : List Entry) (candidates : List Json) :
    Traced entries candidates (.start candidates) where
  wanted := by simp [Builder.start, registered]
  next := by
    intro f hf key hk hb
    have hf : f = ⟨none, candidates⟩ := by simpa [Builder.start] using hf
    subst hf
    exact .candidate hk hb
  children := by simp [Builder.start]
  roots := by simp [Builder.start]

theorem Traced.withStack (h : Traced entries candidates b) {stack : List Frame}
    (hs : ∀ f ∈ stack, ∃ g ∈ b.stack, ∀ key ∈ f.pending, key ∈ g.pending) :
    Traced entries candidates (b.withStack stack) where
  wanted := h.wanted
  next := by
    intro f hf key hk hb
    obtain ⟨g, hg, hsub⟩ := hs f hf
    exact h.next g hg key (hsub key hk) hb
  children := h.children
  roots := h.roots

theorem Traced.drop (h : Traced entries candidates b) {f : Frame} {stack : List Frame}
    (hs : b.stack = f :: stack) : Traced entries candidates (b.withStack stack) := by
  apply h.withStack
  intro g hg
  exact ⟨g, hs ▸ List.mem_cons_of_mem _ hg, fun _ hk => hk⟩

/-- A frame that goes on has nothing new to follow. -/
theorem Traced.goOn (h : Traced entries candidates b) {owner : Option Json} {key : Json}
    {pending : List Json} {stack : List Frame} (hs : b.stack = ⟨owner, key :: pending⟩ :: stack) :
    Traced entries candidates (b.withStack (⟨owner, pending⟩ :: stack)) := by
  apply h.withStack
  intro f hf
  rw [hs]
  rcases List.mem_cons.1 hf with rfl | hf
  · exact ⟨_, List.mem_cons_self, fun k hk => List.mem_cons_of_mem _ hk⟩
  · exact ⟨f, List.mem_cons_of_mem _ hf, fun _ hk => hk⟩

theorem Traced.attach (h : Traced entries candidates b) (owner : Option Json) {child : Json}
    (hc : child ∈ b.registered) : Traced entries candidates (b.attach owner child) where
  wanted := by
    rw [registered_attach]
    exact h.wanted
  next := by
    rw [stack_attach]
    exact h.next
  children := by
    intro d' hd' x hx
    rw [registered_attach]
    rw [drafts_attach] at hd'
    obtain ⟨d, hd, rfl⟩ := List.mem_map.1 hd'
    unfold arrived at hx
    split at hx
    · -- what has arrived at the owner arrived before, or is the child
      rcases mem_arrive.1 hx with hx | rfl
      · exact h.children d hd x hx
      · exact hc
    · exact h.children d hd x hx
  roots := by
    intro key hk
    rw [registered_attach]
    cases owner with
    | none =>
      rcases List.mem_append.1 hk with hk | hk
      · exact h.roots key hk
      · rw [List.mem_singleton] at hk
        subst hk
        exact hc
    | some owner => exact h.roots key hk

theorem Traced.register (h : Traced entries candidates b) {key : Json} {component : Component}
    (hw : Wanted entries candidates key) :
    Traced entries candidates (b.register key component (needs entries key)) := by
  have hr : (b.register key component (needs entries key)).registered = b.registered ++ [key] := by
    simp [Builder.register, registered]
  refine ⟨?_, ?_, ?_, ?_⟩
  · intro k hk
    rw [hr, List.mem_append, List.mem_singleton] at hk
    rcases hk with hk | rfl
    · exact h.wanted k hk
    · exact hw
  · intro f hf k hk hb
    rcases List.mem_cons.1 hf with rfl | hf
    · exact .needed hw hk hb
    · exact h.next f hf k hk hb
  · intro d hd child hc
    rw [hr]
    rcases List.mem_append.1 hd with hd | hd
    · exact List.mem_append_left _ (h.children d hd child hc)
    · rw [List.mem_singleton] at hd
      subst hd
      exact absurd hc List.not_mem_nil
  · intro k hk
    rw [hr]
    exact List.mem_append_left _ (h.roots k hk)

/-- **Every move of a sound builder keeps it traced.** -/
theorem Traced.move (h : Traced entries candidates b) (hb : Sound entries b)
    (hm : Move entries b b') : Traced entries candidates b' := by
  cases hm with
  | finish hs hend => exact h.drop hs
  | @hand key below stack hs =>
    have hk : key ∈ b.registered := hb.owned key (by simp [hs])
    exact (h.drop hs).attach _ hk
  | pass hs hk => exact h.goOn hs
  | meet hs hk => exact (h.goOn hs).attach _ hk
  | refuse hs hk he =>
    have hw := h.goOn hs
    exact ⟨hw.wanted, hw.next, hw.children, hw.roots⟩
  | @enter owner key pending stack component hs hk he =>
    refine (h.goOn hs).register ?_
    -- the key was pending, and it can be converted
    refine h.next ⟨owner, key :: pending⟩ (by simp [hs]) key List.mem_cons_self ?_
    simp [Builder.becomes, he]

/-! ## §7. The whole run. -/

/-- What has been built when no frame is left. -/
structure Finished (entries : List Entry) (candidates : List Json) (b : Builder) : Prop where
  sound : Sound entries b
  children : ∀ d ∈ b.drafts,
    d.children = ((needs entries d.key).filter (Builder.becomes entries)).eraseDups
  roots : b.roots = candidates.filter (Builder.becomes entries)
  registered : ∀ key, key ∈ b.registered ↔ Wanted entries candidates key

/-- A state without frames in which the invariants hold is finished. -/
theorem Finished.of_stack (hs : Sound entries b) (hc : Complete entries candidates b)
    (ht : Traced entries candidates b) (hend : b.stack = []) :
    Finished entries candidates b := by
  have hchildren : ∀ d ∈ b.drafts,
      d.children = ((needs entries d.key).filter (Builder.becomes entries)).eraseDups := by
    intro d hd
    rw [← collect_eq, ← hc.children d hd, hend]
    rfl
  have hroots : b.roots = candidates.filter (Builder.becomes entries) := by
    rw [← hc.roots, hend]
    exact (List.append_nil _).symm
  refine ⟨hs, hchildren, hroots, fun key => ⟨ht.wanted key, ?_⟩⟩
  intro hw
  -- what is wanted is reached along lists of children that are complete
  induction hw with
  | candidate hk hb =>
    apply ht.roots
    rw [hroots]
    exact List.mem_filter.2 ⟨hk, hb⟩
  | needed _ hdep hb ih =>
    obtain ⟨d, hd, rfl⟩ := List.mem_map.1 ih
    apply ht.children d hd
    rw [hchildren d hd, List.mem_eraseDups]
    exact List.mem_filter.2 ⟨hdep, hb⟩

/-- **Building ends with complete lists of children, for all that is wanted.** -/
theorem run_finished (entries : List Entry) (candidates : List Json) :
    Finished entries candidates (run entries (.start candidates)) := by
  have h : (Sound entries (run entries (.start candidates))
      ∧ Complete entries candidates (run entries (.start candidates))
      ∧ Traced entries candidates (run entries (.start candidates)))
      ∧ (run entries (.start candidates)).stack = [] :=
    run_induction (P := fun b => Sound entries b ∧ Complete entries candidates b
        ∧ Traced entries candidates b)
      (fun b b' hb hm => ⟨hb.1.move hm, hb.2.1.move hb.1 hm, hb.2.2.move hb.1 hm⟩)
      ⟨.start entries candidates, .start entries candidates, .start entries candidates⟩
  exact .of_stack h.1.1 h.1.2.1 h.1.2.2 h.2

end Builder

end ComponentGraph
