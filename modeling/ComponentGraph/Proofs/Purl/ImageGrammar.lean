/-
  ComponentGraph.Proofs.Purl.ImageGrammar
  ────────────────────────────────
  **THE GRAMMAR OF IMAGE REFERENCES.**

  Reading takes a reference apart: at the last at sign, at the slashes, and
  behind the first segment, if this one looks like a host.  The grammar goes
  the other way and says which texts are put together from a host, path
  components and a digest (`IsReference`).  Both agree:

      isComponent_iff   — the machine for components accepts the runs with
                          separators between them
      parse_eq_ok_iff_isReference
                        — reading gives what a reference was put together from
      read_exact        — what is no reference is an error that names the text
-/
import ComponentGraph.Proofs.Purl.ImageReading

namespace ComponentGraph.Image

open ComponentGraph.Text

/-! ## §1. Path components. -/

/-- Lower-case letters and digits, one at least. -/
def IsRun (cs : List Char) : Prop := cs ≠ [] ∧ ∀ c ∈ cs, isRunChar c

/-- What may stand between two runs. -/
inductive IsSeparator : List Char → Prop where
  | point : IsSeparator ['.']
  | underscore : IsSeparator ['_']
  | underscores : IsSeparator ['_', '_']
  | dashes (k : Nat) : IsSeparator (List.replicate (k + 1) '-')

/-- Runs with separators between them. -/
inductive IsRuns : List Char → Prop where
  | run {r : List Char} (hr : IsRun r) : IsRuns r
  | more {front s r : List Char} (hfront : IsRuns front) (hs : IsSeparator s) (hr : IsRun r) :
    IsRuns (front ++ s ++ r)

/-- The last run may go on. -/
theorem IsRuns.concat {cs : List Char} (h : IsRuns cs) {c : Char} (hc : isRunChar c) :
    IsRuns (cs ++ [c]) := by
  have hlonger : ∀ {r}, IsRun r → IsRun (r ++ [c]) := by
    rintro r ⟨-, hall⟩
    exact ⟨by simp, List.forall_mem_append.2 ⟨hall, by simpa using hc⟩⟩
  cases h with
  | run hr => exact .run (hlonger hr)
  | more hfront hs hr =>
    rw [List.append_assoc]
    exact .more hfront hs (hlonger hr)

/-- The separator that has been read since the last run. -/
def Within.Pending : Within → List Char → Prop
  | .start, _ => False
  | .run, s => s = []
  | .underscore, s => s = ['_']
  | .separator, s => s = ['.'] ∨ s = ['_', '_']
  | .dashes, s => ∃ k, s = List.replicate (k + 1) '-'

/-- The text that has been read of a component. -/
def Within.Has (w : Within) (cs : List Char) : Prop :=
  (w = .start ∧ cs = []) ∨ ∃ front s, IsRuns front ∧ w.Pending s ∧ cs = front ++ s

theorem Within.has_run_iff {cs : List Char} : Within.run.Has cs ↔ IsRuns cs := by
  simp [Has, Pending]

/-- A run follows the start, a run, or a separator. -/
theorem Within.Has.run {w : Within} {cs : List Char} (h : w.Has cs) {c : Char}
    (hc : isRunChar c) : Within.run.Has (cs ++ [c]) := by
  have hone : IsRun [c] := ⟨by simp, by simpa using hc⟩
  rw [has_run_iff]
  obtain ⟨-, rfl⟩ | ⟨front, s, hfront, hs, rfl⟩ := h
  · exact .run hone
  · cases w with
    | start => exact hs.elim
    | run =>
      obtain rfl : s = [] := hs
      rw [List.append_nil]
      exact hfront.concat hc
    | underscore =>
      obtain rfl : s = ['_'] := hs
      exact .more hfront .underscore hone
    | separator =>
      obtain rfl | rfl := (hs : s = ['.'] ∨ s = ['_', '_'])
      · exact .more hfront .point hone
      · exact .more hfront .underscores hone
    | dashes =>
      obtain ⟨k, rfl⟩ := (hs : ∃ k, s = List.replicate (k + 1) '-')
      exact .more hfront (.dashes k) hone

/-- **What one step reads is added to the text.** -/
theorem Within.Has.step {w w' : Within} {cs : List Char} (h : w.Has cs) {c : Char}
    (hstep : w.step c = some w') : w'.Has (cs ++ [c]) := by
  unfold Within.step at hstep
  split at hstep
  · rename_i hrun
    obtain rfl := Option.some.inj hstep
    exact h.run hrun
  · obtain ⟨rfl, -⟩ | ⟨front, s, hfront, hs, rfl⟩ := h
    · contradiction
    · -- the separator grows by this character
      refine .inr ⟨front, s ++ [c], hfront, ?_, List.append_assoc _ _ _⟩
      cases w with
      | start => contradiction
      | separator => contradiction
      | run =>
        obtain rfl : s = [] := hs
        simp only at hstep
        split_ifs at hstep with hpoint hunderscore hdash
        · obtain rfl := Option.some.inj hstep
          exact .inl (by rw [hpoint]; rfl)
        · obtain rfl := Option.some.inj hstep
          show [c] = ['_']
          rw [hunderscore]
        · obtain rfl := Option.some.inj hstep
          exact ⟨0, by rw [hdash]; rfl⟩
      | underscore =>
        obtain rfl : s = ['_'] := hs
        simp only at hstep
        split_ifs at hstep with hunderscore
        obtain rfl := Option.some.inj hstep
        exact .inr (by rw [hunderscore]; rfl)
      | dashes =>
        obtain ⟨k, rfl⟩ := (hs : ∃ k, s = List.replicate (k + 1) '-')
        simp only at hstep
        split_ifs at hstep with hdash
        obtain rfl := Option.some.inj hstep
        exact ⟨k + 1, by rw [hdash, ← List.replicate_succ']⟩

theorem Within.Has.foldlM {w w' : Within} {before cs : List Char} (h : w.Has before)
    (hread : cs.foldlM Within.step w = some w') : w'.Has (before ++ cs) := by
  induction cs generalizing w before with
  | nil =>
    obtain rfl := Option.some.inj hread
    rwa [List.append_nil]
  | cons c cs ih =>
    rw [List.foldlM_cons] at hread
    obtain ⟨next, hstep, hrest⟩ := Option.bind_eq_some_iff.1 hread
    rw [List.append_cons]
    exact ih (h.step hstep) hrest

theorem Within.step_run (w : Within) {c : Char} (hc : isRunChar c) : w.step c = some .run := by
  unfold Within.step
  exact if_pos hc

/-- After a run, reading stands in a run, wherever it stood before. -/
theorem foldlM_run (w : Within) {r : List Char} (hr : IsRun r) :
    r.foldlM Within.step w = some .run := by
  obtain ⟨hne, hall⟩ := hr
  induction r generalizing w with
  | nil => contradiction
  | cons c r ih =>
    rw [List.forall_mem_cons] at hall
    rw [List.foldlM_cons, w.step_run hall.1]
    show r.foldlM Within.step .run = some .run
    by_cases hnil : r = []
    · rw [hnil]
      rfl
    · exact ih .run hnil hall.2

theorem foldlM_dashes (k : Nat) :
    (List.replicate k '-').foldlM Within.step .dashes = some .dashes := by
  induction k with
  | zero => rfl
  | succ k ih =>
    rw [List.replicate_succ, List.foldlM_cons]
    exact ih

/-- A separator may be read behind a run. -/
theorem exists_foldlM_separator {s : List Char} (hs : IsSeparator s) :
    ∃ w, s.foldlM Within.step .run = some w := by
  cases hs with
  | point => exact ⟨.separator, rfl⟩
  | underscore => exact ⟨.underscore, rfl⟩
  | underscores => exact ⟨.separator, rfl⟩
  | dashes k =>
    refine ⟨.dashes, ?_⟩
    rw [List.replicate_succ, List.foldlM_cons]
    exact foldlM_dashes k

theorem foldlM_runs (w : Within) {cs : List Char} (h : IsRuns cs) :
    cs.foldlM Within.step w = some .run := by
  induction h with
  | run hr => exact foldlM_run w hr
  | @more front s r _ hs hr ih =>
    obtain ⟨w', hw'⟩ := exists_foldlM_separator hs
    rw [List.foldlM_append, List.foldlM_append, ih]
    show (s.foldlM Within.step .run >>= fun w => r.foldlM Within.step w) = _
    rw [hw']
    exact foldlM_run w' hr

/-- **A path component is made of runs with separators between them.** -/
theorem isComponent_iff {cs : List Char} : isComponent cs ↔ IsRuns cs := by
  rw [isComponent, decide_eq_true_iff]
  constructor
  · intro h
    have hstart : Within.start.Has [] := .inl ⟨rfl, rfl⟩
    exact Within.has_run_iff.1 (hstart.foldlM h)
  · exact foldlM_runs .start

/-! ## §2. Hosts and digests. -/

/-- A host name, with a port behind a colon if there is one. -/
inductive IsHost : List Char → Prop where
  | name {h : List Char} (hne : h ≠ []) (hall : ∀ c ∈ h, isHostChar c) : IsHost h
  | port {h p : List Char} (hne : h ≠ []) (hall : ∀ c ∈ h, isHostChar c) (hport : p ≠ [])
      (hdigits : ∀ c ∈ p, c.isDigit) : IsHost (h ++ ':' :: p)

/-- A name has no colon, so the first one begins the port. -/
theorem isRegistry_append_behind {h : List Char} (hall : ∀ c ∈ h, isHostChar c)
    (port : Option (List Char)) : isRegistry (h ++ behind ':' port)
      = (h ≠ [] && h.all isHostChar && port.all fun p => p ≠ [] && p.all Char.isDigit) := by
  have hcolon : ':' ∉ h := by
    intro hmem
    have hc := hall ':' hmem
    revert hc
    decide
  rw [isRegistry, cut_append_behind hcolon]

theorem isRegistry_iff {cs : List Char} : isRegistry cs ↔ IsHost cs := by
  constructor
  · intro h
    obtain ⟨hcs, -⟩ : cs = (cut ':' cs).1 ++ behind ':' (cut ':' cs).2 ∧ _ :=
      append_behind_of_cut rfl
    simp only [isRegistry, Bool.and_eq_true, decide_eq_true_eq, List.all_eq_true] at h
    obtain ⟨⟨hne, hall⟩, hport⟩ := h
    rw [hcs]
    cases hp : (cut ':' cs).2 with
    | none =>
      rw [behind, List.append_nil]
      exact .name hne hall
    | some p =>
      simp only [hp, Option.all_some, Bool.and_eq_true, decide_eq_true_eq,
        List.all_eq_true] at hport
      exact .port hne hall hport.1 hport.2
  · intro h
    cases h with
    | name hne hall =>
      have hempty := isRegistry_append_behind hall none
      rw [behind, List.append_nil] at hempty
      rw [hempty]
      simpa [hne] using hall
    | @port h p hne hall hport hdigits =>
      have hsome := isRegistry_append_behind hall (some p)
      rw [behind] at hsome
      rw [hsome]
      simpa [hne, hport] using ⟨hall, hdigits⟩

/-- What tells a host from a path component. -/
def MarksHost (cs : List Char) : Prop := '.' ∈ cs ∨ ':' ∈ cs ∨ cs = "localhost".toList

theorem looksLikeHost_iff {cs : List Char} : looksLikeHost cs ↔ MarksHost cs := by
  rw [looksLikeHost, MarksHost, Bool.or_eq_true, Bool.or_eq_true, List.contains_iff_mem,
    List.contains_iff_mem, decide_eq_true_iff, or_assoc]

/-- The scheme of a digest, and 64 lower-case hexadecimal digits. -/
def IsSha256 (cs : List Char) : Prop :=
  ∃ digits : List Char, cs = "sha256:".toList ++ digits ∧ digits.length = 64
    ∧ ∀ c ∈ digits, isDigestChar c

theorem isDigest_iff {cs : List Char} : isDigest cs ↔ IsSha256 cs := by
  simp only [isDigest, Bool.and_eq_true, decide_eq_true_eq, List.all_eq_true]
  constructor
  · rintro ⟨⟨hscheme, hlength⟩, hall⟩
    have hcs := List.take_append_drop digestScheme.length cs
    rw [hscheme] at hcs
    exact ⟨cs.drop digestScheme.length, hcs.symm, hlength, hall⟩
  · rintro ⟨digits, rfl, hlength, hall⟩
    have htake : ("sha256:".toList ++ digits).take digestScheme.length = digestScheme :=
      List.take_left
    have hdrop : ("sha256:".toList ++ digits).drop digestScheme.length = digits := List.drop_left
    rw [htake, hdrop]
    exact ⟨⟨rfl, hlength⟩, hall⟩

theorem IsSha256.not_mem_at {cs : List Char} (h : IsSha256 cs) : '@' ∉ cs := by
  obtain ⟨digits, rfl, -, hall⟩ := h
  intro hmem
  rcases List.mem_append.1 hmem with hmem | hmem
  · revert hmem
    decide
  · have hc := hall '@' hmem
    revert hc
    decide

/-! ## §3. References. -/

/-- May a host, if there is one, and a path stand one behind the other?  Just a host
looks like one, unless a component stands alone. -/
structure IsSegmented (host : Option (List Char)) (path : List (List Char)) : Prop where
  marked : ∀ h, host = some h → MarksHost h
  unmarked : host = none → ∀ first second more, path = first :: second :: more →
    ¬ MarksHost first
  path_ne : path ≠ []

/-- **Is the text a reference by digest**, put together from these parts? -/
structure IsReference (host : Option (List Char)) (path : List (List Char)) (digest cs : List Char) :
    Prop extends IsSegmented host path where
  text : cs = join '/' (host.toList ++ path) ++ '@' :: digest
  isHost : ∀ h, host = some h → IsHost h
  isRuns : ∀ component ∈ path, IsRuns component
  isDigest : IsSha256 digest

/-- The registry to which a host, or none, refers. -/
def registryOf : Option (List Char) → List Char
  | none => defaultRegistry
  | some host => if host = registryAlias then defaultRegistry else host

/-- The image to which these parts refer. -/
def Reference.made (host : Option (List Char)) (path : List (List Char)) (digest : List Char) :
    Reference where
  registry := registryOf host
  path := fullPath (registryOf host) path
  digest

variable {host : Option (List Char)} {path : List (List Char)} {digest cs : List Char}

/-- A host is told from the path behind it. -/
theorem IsSegmented.splitRegistry (h : IsSegmented host path) :
    splitRegistry (host.toList ++ path) = (registryOf host, path) := by
  obtain ⟨first, rest, rfl⟩ := List.exists_cons_of_ne_nil h.path_ne
  cases host with
  | none =>
    cases rest with
    | nil => rfl
    | cons second more =>
      have hmark : ¬ looksLikeHost first := fun hlooks =>
        h.unmarked rfl first second more rfl (looksLikeHost_iff.1 hlooks)
      exact if_neg hmark
  | some name =>
    have hmark : looksLikeHost name := looksLikeHost_iff.2 (h.marked name rfl)
    exact if_pos hmark

/-- All segments are those of a host and a path. -/
theorem exists_isSegmented {segments : List (List Char)} (hne : segments ≠ []) :
    ∃ host path, segments = host.toList ++ path ∧ IsSegmented host path := by
  obtain ⟨first, rest, rfl⟩ := List.exists_cons_of_ne_nil hne
  by_cases h : rest ≠ [] ∧ MarksHost first
  · refine ⟨some first, rest, rfl, ?_, nofun, h.1⟩
    intro name hname
    obtain rfl := Option.some.inj hname
    exact h.2
  · refine ⟨none, first :: rest, rfl, nofun, ?_, by simp⟩
    rintro - _ second more he hmark
    obtain ⟨rfl, rfl⟩ := List.cons.inj he
    exact h ⟨by simp, hmark⟩

theorem isRegistry_defaultRegistry : isRegistry defaultRegistry := by decide +kernel

/-- A host is well-formed if the registry is: the other name of the default registry
is a host, too. -/
theorem isRegistry_registryOf_iff :
    isRegistry (registryOf host) ↔ ∀ h, host = some h → IsHost h := by
  cases host with
  | none => simp [registryOf, isRegistry_defaultRegistry]
  | some name =>
    have halias : isRegistry registryAlias := by decide +kernel
    have hname : isRegistry (registryOf (some name)) ↔ IsHost name := by
      rw [registryOf]
      split
      · rename_i he
        rw [he, ← isRegistry_iff]
        exact iff_of_true isRegistry_defaultRegistry halias
      · exact isRegistry_iff
    rw [hname]
    constructor
    · intro h _ he
      obtain rfl := Option.some.inj he
      exact h
    · exact fun h => h name rfl

theorem IsHost.not_mem_slash {h : List Char} (hh : IsHost h) : '/' ∉ h := by
  have hslash : ∀ {cs : List Char} {p : Char → Bool}, (∀ c ∈ cs, p c) → p '/' = false →
      '/' ∉ cs := by
    intro cs p hall hp hmem
    rw [hall '/' hmem] at hp
    contradiction
  cases hh with
  | name _ hall => exact hslash hall (by decide)
  | port _ hall _ hdigits =>
    rw [List.mem_append, List.mem_cons, not_or, not_or]
    exact ⟨hslash hall (by decide), by decide, hslash hdigits (by decide)⟩

theorem IsRuns.not_mem_slash (h : IsRuns cs) : '/' ∉ cs := by
  intro hmem
  have hc := isComponentChar_of_mem (isComponent_iff.2 h) '/' hmem
  revert hc
  decide

theorem IsHost.ne_nil {h : List Char} (hh : IsHost h) : h ≠ [] := by
  cases hh with
  | name hne => exact hne
  | port => simp

theorem IsReference.split_name (h : IsReference host path digest cs) :
    split '/' (join '/' (host.toList ++ path)) = host.toList ++ path := by
  refine split_join (by simp [h.path_ne]) fun piece hpiece => ?_
  rcases List.mem_append.1 hpiece with hhost | hpath
  · exact (h.isHost piece (Option.mem_toList.1 hhost)).not_mem_slash
  · exact (h.isRuns piece hpath).not_mem_slash

theorem IsReference.name_ne_nil (h : IsReference host path digest cs) :
    join '/' (host.toList ++ path) ≠ [] := by
  obtain ⟨first, rest, rfl⟩ := List.exists_cons_of_ne_nil h.path_ne
  have hfirst := ne_nil_of_isComponent (isComponent_iff.2 (h.isRuns first List.mem_cons_self))
  cases host with
  | none => exact join_cons_ne_nil '/' hfirst rest
  | some name => exact join_cons_ne_nil '/' (h.isHost name rfl).ne_nil _

/-- **Reading gives what a reference was put together from.** -/
theorem Reference.parse_eq_ok_iff_isReference {s : String} {r : Reference} :
    Reference.parse s = .ok r
      ↔ ∃ host path digest, IsReference host path digest s.toList
        ∧ r = Reference.made host path digest := by
  rw [Reference.parse_eq_ok_iff]
  constructor
  · rintro ⟨name, hcut, -, hdigest, hregistry, hr, hpath, hall⟩
    obtain ⟨host, path, hsegments, hsegmented⟩ := exists_isSegmented (split_ne_nil '/' name)
    rw [hsegments, hsegmented.splitRegistry] at hr hpath hall
    simp only at hr hpath hall
    rw [hr] at hregistry hpath
    refine ⟨host, path, r.digest, { hsegmented with
      text := ?_
      isHost := isRegistry_registryOf_iff.1 hregistry
      isRuns := fun component hc => isComponent_iff.1 (hall component hc)
      isDigest := isDigest_iff.1 hdigest }, ?_⟩
    · rw [← hsegments, join_split]
      exact (cutLast?_eq_some_iff.1 hcut).1
    · rw [Reference.made, ← hpath, ← hr]
  · rintro ⟨host, path, digest, h, rfl⟩
    refine ⟨join '/' (host.toList ++ path), ?_, h.name_ne_nil, isDigest_iff.2 h.isDigest,
      isRegistry_registryOf_iff.2 h.isHost, ?_⟩
    · exact cutLast?_eq_some_iff.2 ⟨h.text, h.isDigest.not_mem_at⟩
    · rw [h.split_name, h.splitRegistry]
      exact ⟨rfl, rfl, fun component hc => isComponent_iff.2 (h.isRuns component hc)⟩

/-- A lone component of the default registry stands below `library`. -/
theorem Reference.repository_made (hne : path ≠ []) (digest : List Char) :
    (Reference.made host path digest).repository
      = String.ofList (registryOf host
        ++ (if registryOf host = defaultRegistry ∧ path.length = 1 then "/library/" else "/").toList
        ++ join '/' path) := by
  obtain ⟨first, rest, rfl⟩ := List.exists_cons_of_ne_nil hne
  rw [Reference.repository, Reference.made, fullPath]
  split
  · rw [join_cons_cons, join_cons_cons, List.append_assoc]
    rfl
  · rw [join_cons_cons, List.append_assoc]
    rfl

/-- **Just the references by digest are read.**  The digest is what stands behind the
last at sign, and the repository is the registry and the path; any other text is an
error that names it. -/
theorem Reference.read_exact (s : String) :
    (∀ host path digest, IsReference host path digest s.toList →
      ∃ r, Reference.read s = .ok r ∧ r.digest = digest ∧ '@' ∉ digest
        ∧ r.repository = String.ofList (registryOf host
          ++ (if registryOf host = defaultRegistry ∧ path.length = 1
              then "/library/" else "/").toList
          ++ join '/' path))
    ∧ ((¬ ∃ host path digest, IsReference host path digest s.toList) →
      ∃ fault, Reference.read s = .error (.badImage s fault)) := by
  constructor
  · intro host path digest h
    have hparse : Reference.parse s = .ok (Reference.made host path digest) :=
      Reference.parse_eq_ok_iff_isReference.2 ⟨host, path, digest, h, rfl⟩
    refine ⟨Reference.made host path digest, ?_, rfl, h.isDigest.not_mem_at,
      Reference.repository_made h.path_ne digest⟩
    rw [Reference.read, hparse, mapError_ok]
  · intro hnone
    cases hparse : Reference.parse s with
    | error fault => exact ⟨fault, by rw [Reference.read, hparse, mapError_error]⟩
    | ok r =>
      obtain ⟨host, path, digest, h, -⟩ := Reference.parse_eq_ok_iff_isReference.1 hparse
      exact absurd ⟨host, path, digest, h⟩ hnone

/-- The digest of some image. -/
def someDigest : List Char :=
  "sha256:0f1e2d3c4b5a69780f1e2d3c4b5a69780f1e2d3c4b5a69780f1e2d3c4b5a6978".toList

/-- A reference with a port, and with every separator. -/
def separated : String := "localhost:5000/a.b_c/d__e--f@" ++ String.ofList someDigest

theorem separated_read_exact :
    ∃ r, Reference.read separated = .ok r ∧ r.digest = someDigest ∧ '@' ∉ r.digest
      ∧ r.repository = "localhost:5000/a.b_c/d__e--f" := by
  have hhost : isRegistry "localhost:5000".toList := by decide +kernel
  have hmark : looksLikeHost "localhost:5000".toList := by decide +kernel
  have hpath : ["a.b_c".toList, "d__e--f".toList].all isComponent := by decide +kernel
  have hdigest : isDigest someDigest := by decide +kernel
  have h : IsReference (some "localhost:5000".toList) ["a.b_c".toList, "d__e--f".toList]
      someDigest separated.toList := {
    marked := fun _ he => Option.some.inj he ▸ looksLikeHost_iff.1 hmark
    unmarked := nofun
    path_ne := by simp
    text := by decide +kernel
    isHost := fun _ he => Option.some.inj he ▸ isRegistry_iff.1 hhost
    isRuns := fun component hc => isComponent_iff.1 (List.all_eq_true.1 hpath component hc)
    isDigest := isDigest_iff.1 hdigest }
  obtain ⟨r, hread, hr, hat, hrepository⟩ := (Reference.read_exact separated).1 _ _ _ h
  refine ⟨r, hread, hr, hr ▸ hat, hrepository.trans ?_⟩
  decide +kernel

end ComponentGraph.Image
