/-
  ComponentGraph.Proofs.Report.Accounting
  ────────────────────────────────
  **WHAT A REPORT'S SUMMARY COUNTS.**

  A component of a report's graph stands for the artifact, for a result that
  has a component of its own, or for a package that can be reached in its
  result.  No two stand for the same, and nothing is left out:

      Origin                 — what a component can stand for
      Report.Lists           — which components a report's graph must have
      contributions_account  — the graph below the root, result by result
      summary_accounts       — the counts of the summary, read off the report
-/
import ComponentGraph.Proofs.Graph.Accounts
import ComponentGraph.Proofs.Graph.Whole
import ComponentGraph.Proofs.Package.Matching
import ComponentGraph.Proofs.Report.Assembly
import ComponentGraph.Proofs.View.Counts

namespace ComponentGraph

/-- What a component of a report's graph can stand for.  Results go by their
place in the report, so equal results are told apart. -/
inductive Origin where
  | artifact
  /-- The component above the packages of a result. -/
  | anchor (result : Nat)
  /-- The package of a result that has this key. -/
  | package (result : Nat) (key : Json)
  deriving Repr, DecidableEq

/-- The result to which it belongs. -/
def Origin.result? : Origin → Option Nat
  | .artifact => none
  | .anchor k => some k
  | .package k _ => some k

/-! ## §1. Components without vulnerabilities. -/

/-- The component above the packages of a result carries no vulnerabilities. -/
theorem Result.vulnerabilities_component (os : Option OS) (target type class_ : Field) :
    (component os target type class_).vulnerabilities = none := by
  simp only [component]
  split
  · cases os <;> rfl
  · split <;> rfl

/-- A declared component carries no vulnerabilities. -/
theorem Declaration.vulnerabilities_component {d : Declaration} {c : Component}
    (h : d.component = .ok c) : c.vulnerabilities = none := by
  simp only [component] at h
  -- with a package URL and without, the component is the same otherwise
  split at h
  all_goals
    obtain ⟨_, -, he⟩ := bind_eq_ok_iff.1 h
    obtain rfl := Except.ok.inj he
    rfl

theorem Artifact.vulnerabilities_root {a : Artifact} {c : Component} (h : a.root = .ok c) :
    c.vulnerabilities = none := by
  simp only [root] at h
  split at h
  · contradiction
  · rename_i d _ _
    cases hd : d.component with
    | error e => simp [hd] at h
    | ok declared =>
      rw [hd] at h
      obtain rfl := Except.ok.inj h
      exact Declaration.vulnerabilities_component hd
  · split at h
    all_goals
      obtain ⟨_, -, he⟩ := bind_eq_ok_iff.1 h
      obtain rfl := Except.ok.inj he
      rfl

/-! ## §2. Results. -/

namespace Result

/-- Do the packages of the result come into the graph? -/
def isPlaced (r : Result) : Bool :=
  isFloating r.type || r.class_ = .ofText "os-pkgs" || r.class_ = .ofText "lang-pkgs"

/-- Do they come below a component of their own? -/
def isAnchored (r : Result) : Bool := r.isPlaced && !isFloating r.type

variable {r : Result} {os : Option OS} {k : Nat}

theorem contribution_cases (os : Option OS) (r : Result) :
    r.isPlaced = false ∧ r.isAnchored = false ∧ r.contribution os = .empty
    ∨ r.isPlaced = true ∧ r.isAnchored = false ∧ r.contribution os = r.forest
    ∨ r.isPlaced = true ∧ r.isAnchored = true ∧ r.contribution os
        = (Rooted.above (component os r.target r.type r.class_) r.forest).toForest := by
  unfold isAnchored isPlaced contribution placement
  by_cases hf : isFloating r.type
  · simp [hf]
  · by_cases hos : r.class_ = .ofText "os-pkgs"
    · simp [hf, hos]
    · by_cases hlang : r.class_ = .ofText "lang-pkgs"
      · rw [hlang] at hos
        simp [hf, hlang, hos]
      · simp [hf, hos, hlang]

/-! ## §3. What can be reached. -/

instance (r : Result) : DecidablePred r.Reachable := fun _ => decidable_of_iff _ r.mem_registered_iff

/-- The keys that can be reached. -/
def reach (r : Result) : Finset Json := r.keys.toFinset.filter r.Reachable

theorem mem_reach {key : Json} : key ∈ r.reach ↔ r.Reachable key := by
  rw [reach, Finset.mem_filter, List.mem_toFinset]
  refine ⟨fun h => h.2, fun h => ⟨?_, h⟩⟩
  obtain ⟨q, hq⟩ := h.exists_lastPackage?
  rw [mem_keys_iff, hq]
  rfl

/-- The components of the forest stand for the keys that can be reached. -/
theorem image_keyAt (r : Result) : Finset.univ.image r.keyAt = r.reach := by
  ext key
  rw [mem_reach, reachable_iff_keyAt]
  simp

/-- **What is measured of a forest adds up over the keys that can be reached.** -/
theorem total_forest (r : Result) (μ : Component → ℕ) (ν : Json → ℕ)
    (h : ∀ key c, r.converted? key = some c → μ c = ν key) :
    r.forest.total μ = ∑ key ∈ r.reach, ν key := by
  rw [← image_keyAt, Finset.sum_image fun i _ j _ he => r.keyAt_injective he]
  exact Finset.sum_congr rfl fun i _ => h _ _ (r.converted?_keyAt i)

theorem size_forest (r : Result) : r.forest.size = r.reach.card := by
  rw [← Forest.total_one, r.total_forest _ (fun _ => 1) fun _ _ _ => rfl, Finset.sum_const,
    smul_eq_mul, mul_one]

/-- Counting by keys counts each vulnerability once. -/
theorem sum_length_filter (S : Finset Json) (vs : List Vulnerability) :
    ∑ key ∈ S, (vs.filter (·.key = key)).length = (vs.filter (·.key ∈ S)).length := by
  induction vs with
  | nil => simp
  | cons v vs ih =>
    have hone : ∀ key, ((v :: vs).filter (·.key = key)).length
        = (if v.key = key then 1 else 0) + (vs.filter (·.key = key)).length := by
      intro key
      by_cases h : v.key = key <;> simp [h, Nat.add_comm]
    simp only [hone, Finset.sum_add_distrib, Finset.sum_ite_eq, ih]
    by_cases h : v.key ∈ S <;> simp [h, Nat.add_comm]

/-- The vulnerabilities in a forest are those that name a key that can be
reached. -/
theorem vulnerabilities_forest (r : Result) : r.forest.total Component.vulnerabilityCount
    = (r.vulnerabilities.filter (·.key ∈ r.reach)).length := by
  rw [← sum_length_filter]
  apply total_forest
  intro key c hc
  rw [Component.vulnerabilityCount, Component.vulnerabilityList, vulnerabilities_of_converted hc,
    getD_vulnerabilitiesOf]

/-! ## §4. Contributions. -/

/-- What is measured of a contribution: the packages, and the component above
them. -/
theorem total_contribution (μ : Component → ℕ) (os : Option OS) (r : Result) :
    (r.contribution os).total μ
      = (if r.isAnchored then μ (component os r.target r.type r.class_) else 0)
        + if r.isPlaced then r.forest.total μ else 0 := by
  obtain ⟨hp, ha, h⟩ | ⟨hp, ha, h⟩ | ⟨hp, ha, h⟩ := contribution_cases os r
  · simp [hp, ha, h]
  · simp [hp, ha, h]
  · simp [hp, ha, h]

theorem isWhole_forest (r : Result) : r.forest.IsWhole :=
  fun i => r.reaches_of_reachable (r.reachable_keyAt i) i rfl

theorem isWhole_contribution (os : Option OS) (r : Result) : (r.contribution os).IsWhole := by
  obtain ⟨-, -, h⟩ | ⟨-, -, h⟩ | ⟨-, -, h⟩ := contribution_cases os r
  · rw [h]
    exact Forest.isWhole_empty
  · rw [h]
    exact r.isWhole_forest
  · rw [h]
    exact Forest.isWhole_above _ r.isWhole_forest

/-- Must this component be there for the `k`-th result, standing for this
origin? -/
def ListsAs (os : Option OS) (r : Result) (k : Nat) : Origin → Component → Prop
  | .artifact, _ => False
  | .anchor j, c => j = k ∧ r.isAnchored ∧ c = component os r.target r.type r.class_
  | .package j key, c => j = k ∧ r.isPlaced ∧ r.Reachable key ∧ r.converted? key = some c

theorem ListsAs.result? {o : Origin} {c : Component} (h : r.ListsAs os k o c) :
    o.result? = some k := by
  cases o with
  | artifact => exact h.elim
  | anchor j => exact congrArg some h.1
  | package j key => exact congrArg some h.1

/-- The forest accounts for the packages that can be reached. -/
theorem forest_accounts (r : Result) (k : Nat) : r.forest.graph.Accounts
    (fun o c => ∃ key, o = Origin.package k key ∧ r.Reachable key ∧ r.converted? key = some c)
    fun i => Origin.package k (r.keyAt i) where
  injective := by
    intro i j he
    exact r.keyAt_injective (Origin.package.inj he).2
  listed i := ⟨_, rfl, r.reachable_keyAt i, r.converted?_keyAt i⟩
  placed := by
    rintro o c ⟨key, rfl, hr, -⟩
    obtain ⟨i, rfl⟩ := (r.reachable_iff_keyAt key).1 hr
    exact ⟨i, rfl⟩

/-- **A contribution accounts for what its result lists.** -/
theorem contribution_accounts (os : Option OS) (r : Result) (k : Nat) :
    ∃ origin, (r.contribution os).graph.Accounts (r.ListsAs os k) origin := by
  obtain ⟨hp, ha, h⟩ | ⟨hp, ha, h⟩ | ⟨hp, ha, h⟩ := contribution_cases os r
  · rw [h]
    refine ⟨_, Graph.accounts_empty.congr fun o c => ?_⟩
    cases o <;> simp [ListsAs, hp, ha]
  · rw [h]
    refine ⟨_, (r.forest_accounts k).congr fun o c => ?_⟩
    cases o <;> simp [ListsAs, hp, ha]
  · rw [h]
    refine ⟨_, ((r.forest_accounts k).above (.anchor k) _ _ ?_).congr fun o c => ?_⟩
    · simp
    · cases o <;> simp [ListsAs, hp, ha]

end Result

/-! ## §5. Reports. -/

namespace Report

variable {os : Option OS} {results : List Result}

/-- What only some of a list add, they add among themselves. -/
theorem sum_map_ite {α : Type} (p : α → Bool) (f : α → ℕ) (xs : List α) :
    (xs.map fun x => if p x then f x else 0).sum = ((xs.filter p).map f).sum := by
  induction xs with
  | nil => rfl
  | cons x xs ih => by_cases h : p x <;> simp [h, ih]

theorem total_contributions (μ : Component → ℕ) (os : Option OS) (results : List Result) :
    (contributions os results).total μ = (results.map fun s => (s.contribution os).total μ).sum := by
  -- the forest grows result by result, so the induction takes the last one
  induction results using List.reverseRecOn with
  | nil => rfl
  | append_singleton results s ih => rw [contributions_concat]; simp [ih]

theorem isWhole_contributions (os : Option OS) (results : List Result) :
    (contributions os results).IsWhole := by
  induction results using List.reverseRecOn with
  | nil => exact Forest.isWhole_empty
  | append_singleton results s ih =>
    rw [contributions_concat]
    exact Forest.isWhole_append ih (s.isWhole_contribution os)

/-- Must this component be there for one of the results? -/
def ResultLists (os : Option OS) (results : List Result) (o : Origin) (c : Component) : Prop :=
  ∃ (k : Nat) (s : Result), results[k]? = some s ∧ s.ListsAs os k o c

theorem resultLists_concat (s : Result) (o : Origin) (c : Component) :
    ResultLists os (results ++ [s]) o c
      ↔ ResultLists os results o c ∨ s.ListsAs os results.length o c := by
  have hget : ∀ (k : Nat) (t : Result), (results ++ [s])[k]? = some t
      ↔ results[k]? = some t ∨ k = results.length ∧ s = t := by
    grind
  constructor
  · rintro ⟨k, t, hk, hl⟩
    obtain hk | ⟨rfl, rfl⟩ := (hget k t).1 hk
    · exact .inl ⟨k, t, hk, hl⟩
    · exact .inr hl
  · rintro (⟨k, t, hk, hl⟩ | hl)
    · exact ⟨k, t, (hget k t).2 (.inl hk), hl⟩
    · exact ⟨_, s, (hget _ s).2 (.inr ⟨rfl, rfl⟩), hl⟩

/-- **The contributions account for what the results list.** -/
theorem contributions_account (os : Option OS) (results : List Result) :
    ∃ origin, (contributions os results).graph.Accounts (ResultLists os results) origin := by
  induction results using List.reverseRecOn with
  | nil =>
    refine ⟨_, Graph.accounts_empty.congr fun o c => ?_⟩
    simp [ResultLists]
  | append_singleton results s ih =>
    obtain ⟨first, hfirst⟩ := ih
    obtain ⟨second, hsecond⟩ := s.contribution_accounts os results.length
    rw [contributions_concat]
    refine ⟨_, (hfirst.append hsecond ?_).congr fun o c => (resultLists_concat s o c).symm⟩
    -- the places of the results before are below the length
    rintro o c d ⟨k, t, hk, hl⟩ hm
    have he : k = results.length := by
      rw [← Option.some.injEq, ← hl.result?, ← hm.result?]
    rw [he, List.getElem?_eq_none le_rfl] at hk
    contradiction

/-- Must this component be in the graph of the report, standing for this
origin? -/
inductive Lists (r : Report) : Origin → Component → Prop where
  | artifact {c : Component} : r.artifact.root = .ok c → Lists r .artifact c
  | anchor {k : Nat} {s : Result} : r.results[k]? = some s → s.isAnchored →
      Lists r (.anchor k) (Result.component r.artifact.metadata.os s.target s.type s.class_)
  | package {k : Nat} {s : Result} {key : Json} {c : Component} : r.results[k]? = some s →
      s.isPlaced → s.Reachable key → s.converted? key = some c → Lists r (.package k key) c

theorem lists_iff {r : Report} {o : Origin} {c : Component} :
    r.Lists o c ↔ (o = .artifact ∧ r.artifact.root = .ok c)
      ∨ ResultLists r.artifact.metadata.os r.results o c := by
  constructor
  · intro h
    cases h with
    | artifact hr => exact .inl ⟨rfl, hr⟩
    | anchor hk ha => exact .inr ⟨_, _, hk, rfl, ha, rfl⟩
    | package hk hp hr hc => exact .inr ⟨_, _, hk, rfl, hp, hr, hc⟩
  · rintro (⟨rfl, hr⟩ | ⟨k, s, hk, hl⟩)
    · exact .artifact hr
    · cases o with
      | artifact => exact hl.elim
      | anchor j =>
        obtain ⟨rfl, ha, rfl⟩ := hl
        exact .anchor hk ha
      | package j key =>
        obtain ⟨rfl, hp, hr, hc⟩ := hl
        exact .package hk hp hr hc

/-- The vulnerabilities of what a component stands for. -/
def carried (r : Report) : Origin → Option (List Vulnerability)
  | .artifact | .anchor _ => none
  | .package k key => r.results[k]?.bind (·.vulnerabilitiesOf key)

theorem Lists.vulnerabilities {r : Report} {o : Origin} {c : Component} (h : r.Lists o c) :
    c.vulnerabilities = r.carried o := by
  cases h with
  | artifact hr => exact Artifact.vulnerabilities_root hr
  | anchor _ _ => exact Result.vulnerabilities_component ..
  | package hk _ _ hc =>
    rw [Result.vulnerabilities_of_converted hc, carried, hk]
    rfl

/-- The graph of a report accounts for what the report lists. -/
theorem graph_accounts {r : Report} {a : Assembly} (h : r.assemble = .ok a) :
    ∃ origin, a.graph.graph.Accounts r.Lists origin := by
  obtain ⟨root, hr, hgraph⟩ := graph_of_assemble h
  obtain ⟨origin, ho⟩ := contributions_account r.artifact.metadata.os r.results
  rw [hgraph]
  refine ⟨_, (ho.above .artifact root _ ?_).congr fun o c => ?_⟩
  · rintro d ⟨k, s, -, hl⟩
    exact hl.elim
  · rw [lists_iff, hr, Except.ok.injEq, eq_comm (a := c)]

/-- **What is measured of a report's graph**: the root, the components above
packages, and the packages of the results that are placed. -/
theorem total_graph {r : Report} {a : Assembly} (h : r.assemble = .ok a) (μ : Component → ℕ) :
    ∃ root, r.artifact.root = .ok root ∧ a.graph.toForest.total μ = μ root
      + ((r.results.filter (·.isAnchored)).map fun s =>
          μ (Result.component r.artifact.metadata.os s.target s.type s.class_)).sum
      + ((r.results.filter (·.isPlaced)).map (·.forest.total μ)).sum := by
  obtain ⟨root, hr, hgraph⟩ := graph_of_assemble h
  refine ⟨root, hr, ?_⟩
  rw [hgraph, Forest.total_above, total_contributions, Nat.add_assoc, ← sum_map_ite, ← sum_map_ite,
    ← List.sum_map_add]
  simp only [Result.total_contribution]

theorem reaches_graph {r : Report} {a : Assembly} (h : r.assemble = .ok a) :
    ∀ i, a.graph.graph.Reaches [a.graph.root] i := by
  obtain ⟨root, -, hgraph⟩ := graph_of_assemble h
  have hwhole : a.graph.toForest.IsWhole := by
    rw [hgraph]
    exact Forest.isWhole_above root (isWhole_contributions _ _)
  exact hwhole

/-- The summary counts the root, the components above packages, and the keys
that can be reached. -/
theorem components_summary {r : Report} {a : Assembly} (h : r.assemble = .ok a) :
    (a.graph.graph.summary a.graph.root).components
      = 1 + (r.results.filter (·.isAnchored)).length
        + ((r.results.filter (·.isPlaced)).map (·.reach.card)).sum := by
  have hcount : (a.graph.graph.summary a.graph.root).components
      = a.graph.toForest.total fun _ => 1 := by
    rw [Forest.total_one, Graph.components_summary]
    exact Graph.length_reached (reaches_graph h)
  obtain ⟨root, -, htotal⟩ := total_graph h fun _ => 1
  rw [hcount, htotal]
  simp [Forest.total_one, Result.size_forest]

/-- The summary counts the vulnerabilities that name a key that can be reached. -/
theorem vulnerabilities_summary {r : Report} {a : Assembly} (h : r.assemble = .ok a) :
    (a.graph.graph.summary a.graph.root).vulnerabilities
      = ((r.results.filter (·.isPlaced)).map fun s =>
          (s.vulnerabilities.filter (·.key ∈ s.reach)).length).sum := by
  have hcount : (a.graph.graph.summary a.graph.root).vulnerabilities
      = a.graph.toForest.total Component.vulnerabilityCount := by
    rw [Graph.vulnerabilities_summary]
    exact Graph.sum_reached (reaches_graph h) Component.vulnerabilityCount
  obtain ⟨root, hr, htotal⟩ := total_graph h Component.vulnerabilityCount
  rw [hcount, htotal]
  -- neither the root nor a component above packages carries any
  have hroot : root.vulnerabilityCount = 0 := by
    simp [Component.vulnerabilityCount, Component.vulnerabilityList,
      Artifact.vulnerabilities_root hr]
  have habove : ∀ s : Result, (Result.component r.artifact.metadata.os s.target s.type
      s.class_).vulnerabilityCount = 0 := by
    intro s
    simp [Component.vulnerabilityCount, Component.vulnerabilityList,
      Result.vulnerabilities_component]
  simp [hroot, habove, Result.vulnerabilities_forest]

/-- **The summary counts what the report lists**: each thing once, however
often it is shared, and each vulnerability with the one package that it names. -/
theorem summary_accounts {r : Report} {a : Assembly} (h : r.assemble = .ok a) :
    (a.graph.graph.summary a.graph.root).components
        = 1 + (r.results.filter (·.isAnchored)).length
          + ((r.results.filter (·.isPlaced)).map (·.reach.card)).sum
    ∧ (a.graph.graph.summary a.graph.root).vulnerabilities
        = ((r.results.filter (·.isPlaced)).map fun s =>
            (s.vulnerabilities.filter (·.key ∈ s.reach)).length).sum
    ∧ ∃ origin, a.graph.graph.Accounts r.Lists origin
        ∧ ∀ i, (a.graph.graph.component i).vulnerabilities = r.carried (origin i) := by
  obtain ⟨origin, ho⟩ := graph_accounts h
  exact ⟨components_summary h, vulnerabilities_summary h, origin, ho,
    fun i => (ho.listed i).vulnerabilities⟩

/-- A lock file whose packages share a dependency on a cycle, with a package
that only depends on itself. -/
def lockFile : Result where
  target := .ofText "package-lock.json"
  type := .ofText "npm"
  class_ := .ofText "lang-pkgs"
  packages := [
    { Package.plain "app" "1" with dependsOn := [.text "lib@1"] },
    { Package.plain "tool" "1" with dependsOn := [.text "lib@1", .text "app@1"] },
    { Package.plain "lib" "1" with indirect := true, dependsOn := [.text "app@1"] },
    { Package.plain "loop" "1" with indirect := true, dependsOn := [.text "loop@1"] }]
  vulnerabilities := [Result.unkeyed "lib" "1", Result.unkeyed "loop" "1",
    Result.unkeyed "lib" "1", Result.unkeyed "gone" "1"]

/-- The lock file twice, the same packages as installed, and once more in a
result that contributes nothing. -/
def mixed : Report where
  artifact := {
    name := .ofText "app"
    kind := .filesystem
    schemaVersion := none
    metadata := {}
    declaration := none }
  results := [lockFile, lockFile, { lockFile with type := .ofText "node-pkg" },
    { lockFile with class_ := .ofText "secret" }]

theorem mixed_summary : ∃ a, mixed.assemble = .ok a
    ∧ (a.graph.graph.summary a.graph.root).components = 12
    ∧ (a.graph.graph.summary a.graph.root).vulnerabilities = 6 := by
  obtain ⟨a, ha⟩ : ∃ a, mixed.assemble = .ok a := ⟨_, rfl⟩
  obtain ⟨hcomponents, hvulnerabilities, -⟩ := summary_accounts ha
  -- what building registers can be computed
  have hnamed : ∀ s : Result, s.vulnerabilities.filter (·.key ∈ s.reach)
      = s.vulnerabilities.filter (·.key ∈ s.built.registered) := fun s =>
    List.filter_congr fun v _ => decide_eq_decide.2 (Result.mem_reach.trans s.mem_registered_iff.symm)
  refine ⟨a, ha, hcomponents.trans ?_, hvulnerabilities.trans ?_⟩
  · cbv
  · simp only [hnamed]
    cbv

end Report

end ComponentGraph
