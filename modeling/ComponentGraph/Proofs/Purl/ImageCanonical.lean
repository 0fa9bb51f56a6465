/-
  ComponentGraph.Proofs.Purl.ImageCanonical
  ────────────────────────────────
  **ONE NAME FOR EACH IMAGE.**

  What a reference says is itself written as a reference, with its registry
  and its full path.  Reading that one says the same again
  (`parse_repository`): the registry still looks like a host, is not the other
  name of the default registry, and no second `library` is added.  So the
  spellings of one image in the default registry agree (`parse_hub`).
-/
import ComponentGraph.Proofs.Purl.ImageGrammar

namespace ComponentGraph.Image

open ComponentGraph.Text

variable {host : Option (List Char)} {path : List (List Char)} {digest : List Char}

/-! ## §1. Registries and full paths. -/

theorem registryOf_alias : registryOf (some registryAlias) = defaultRegistry := by
  rw [registryOf, if_pos rfl]

theorem registryOf_default : registryOf (some defaultRegistry) = defaultRegistry := by
  rw [registryOf, ite_self]

/-- A registry stands for itself: it is never the other name of the default one. -/
theorem registryOf_registryOf (host : Option (List Char)) :
    registryOf (some (registryOf host)) = registryOf host := by
  cases host with
  | none => exact registryOf_default
  | some name =>
    by_cases h : name = registryAlias
    · have hname : registryOf (some name) = defaultRegistry := if_pos h
      rw [hname, registryOf_default]
    · have hname : registryOf (some name) = name := if_neg h
      rw [hname, hname]

theorem marksHost_defaultRegistry : MarksHost defaultRegistry :=
  looksLikeHost_iff.1 (by decide +kernel)

theorem marksHost_registryOf (h : ∀ name, host = some name → MarksHost name) :
    MarksHost (registryOf host) := by
  cases host with
  | none => exact marksHost_defaultRegistry
  | some name =>
    rw [registryOf]
    split
    · exact marksHost_defaultRegistry
    · exact h name rfl

/-- With `library` in front of it, a path is longer than one component. -/
theorem fullPath_fullPath (registry : List Char) (path : List (List Char)) :
    fullPath registry (fullPath registry path) = fullPath registry path := by
  by_cases h : registry = defaultRegistry ∧ path.length = 1
  · have hpath : fullPath registry path = "library".toList :: path := if_pos h
    have hlength : ¬ (registry = defaultRegistry ∧ ("library".toList :: path).length = 1) := by
      rw [List.length_cons, h.2]
      omega
    rw [hpath]
    exact if_neg hlength
  · have hpath : fullPath registry path = path := if_neg h
    rw [hpath, hpath]

theorem isRuns_library : IsRuns "library".toList := isComponent_iff.1 (by decide +kernel)

theorem isRuns_of_mem_fullPath (registry : List Char) (h : ∀ component ∈ path, IsRuns component) :
    ∀ component ∈ fullPath registry path, IsRuns component := by
  unfold fullPath
  split
  · exact List.forall_mem_cons.2 ⟨isRuns_library, h⟩
  · exact h

theorem fullPath_ne_nil (registry : List Char) (hne : path ≠ []) : fullPath registry path ≠ [] := by
  unfold fullPath
  split
  · exact List.cons_ne_nil _ _
  · exact hne

/-! ## §2. Reading a name again. -/

/-- **The name of an image refers to this image.** -/
theorem Reference.parse_repository {s : String} {r : Reference} (h : Reference.parse s = .ok r) :
    Reference.parse (r.repository ++ "@" ++ String.ofList r.digest) = .ok r := by
  obtain ⟨host, path, digest, href, rfl⟩ := Reference.parse_eq_ok_iff_isReference.1 h
  refine Reference.parse_eq_ok_iff_isReference.2
    ⟨some (registryOf host), fullPath (registryOf host) path, digest, ?_, ?_⟩
  · exact {
      marked := fun _ he => Option.some.inj he ▸ marksHost_registryOf href.marked
      unmarked := nofun
      path_ne := fullPath_ne_nil _ href.path_ne
      text := by
        simp [Reference.repository, Reference.made]
      isHost := by
        intro name he
        obtain rfl := Option.some.inj he
        exact isRegistry_iff.1 (isRegistry_registryOf_iff.2 href.isHost)
      isRuns := isRuns_of_mem_fullPath _ href.isRuns
      isDigest := href.isDigest }
  · rw [Reference.made, Reference.made, registryOf_registryOf, fullPath_fullPath]

/-! ## §3. The default registry. -/

/-- The ways to name the default registry, or not to name it. -/
def IsHub (host : Option (List Char)) : Prop :=
  host = none ∨ host = some registryAlias ∨ host = some defaultRegistry

theorem IsHub.registryOf (h : IsHub host) : registryOf host = defaultRegistry := by
  rcases h with rfl | rfl | rfl
  · rfl
  · exact registryOf_alias
  · exact registryOf_default

theorem IsHub.marked (h : IsHub host) : ∀ name, host = some name → MarksHost name := by
  rintro name rfl
  rcases h with he | he | he
  · contradiction
  · obtain rfl := Option.some.inj he
    exact looksLikeHost_iff.1 (by decide +kernel)
  · obtain rfl := Option.some.inj he
    exact marksHost_defaultRegistry

/-- **However the default registry is named, the image is the same.** -/
theorem Reference.parse_hub (hhub : IsHub host) (hne : path ≠ [])
    (hunmarked : host = none → ∀ first second more, path = first :: second :: more →
      ¬ MarksHost first)
    (hruns : ∀ component ∈ path, IsRuns component) (hdigest : IsSha256 digest) {s : String}
    (hs : s.toList = join '/' (host.toList ++ path) ++ '@' :: digest) :
    Reference.parse s = .ok ⟨defaultRegistry, fullPath defaultRegistry path, digest⟩ := by
  refine Reference.parse_eq_ok_iff_isReference.2 ⟨host, path, digest, ?_, ?_⟩
  · exact {
      marked := hhub.marked
      unmarked := hunmarked
      path_ne := hne
      text := hs
      isHost := isRegistry_registryOf_iff.1 (hhub.registryOf ▸ isRegistry_defaultRegistry)
      isRuns := hruns
      isDigest := hdigest }
  · rw [Reference.made, hhub.registryOf]

/-- A component looks like a host only by a point, or as `localhost`. -/
theorem IsRuns.not_marksHost {component : List Char} (h : IsRuns component)
    (hpoint : '.' ∉ component) (hlocal : component ≠ "localhost".toList) :
    ¬ MarksHost component := by
  rintro (hmem | hmem | he)
  · exact hpoint hmem
  · have hc := isComponentChar_of_mem (isComponent_iff.2 h) ':' hmem
    revert hc
    decide
  · exact hlocal he

/-- What stands in front of some pieces may be made of pieces, too. -/
theorem ofList_join_append {front : String} {pieces more : List (List Char)} (hne : more ≠ [])
    (hfront : front.toList = pieces.flatMap (· ++ ['/'])) :
    String.ofList (join '/' (pieces ++ more)) = front ++ String.ofList (join '/' more) := by
  rw [join_append '/' pieces hne, ← hfront, String.ofList_append, String.ofList_toList]

theorem toList_spelling {front : String} {pieces more : List (List Char)} (hne : more ≠ [])
    (hfront : front.toList = pieces.flatMap (· ++ ['/'])) (digest : List Char) :
    (front ++ String.ofList (join '/' more) ++ "@" ++ String.ofList digest).toList
      = join '/' (pieces ++ more) ++ '@' :: digest := by
  rw [← ofList_join_append hne hfront]
  simp

/-- The ways to refer to an image of one component in the default registry. -/
def spellings : List String :=
  ["", "library/", "docker.io/", "docker.io/library/", "index.docker.io/",
    "index.docker.io/library/"]

theorem Reference.parse_spelling {name : List Char} (hname : IsRuns name)
    (hdigest : IsSha256 digest) {front : String} (hfront : front ∈ spellings) :
    Reference.parse (front ++ String.ofList name ++ "@" ++ String.ofList digest)
      = .ok ⟨defaultRegistry, ["library".toList, name], digest⟩ := by
  -- with `library` in front or without it, the full path is the same
  have hlone : ∀ host, IsHub host → front.toList = host.toList.flatMap (· ++ ['/']) →
      Reference.parse (front ++ String.ofList name ++ "@" ++ String.ofList digest)
        = .ok ⟨defaultRegistry, fullPath defaultRegistry [name], digest⟩ := by
    intro host hhub hpieces
    have hne : [name] ≠ [] := List.cons_ne_nil _ _
    refine Reference.parse_hub hhub hne (by simp) (by simpa using hname) hdigest ?_
    exact toList_spelling hne hpieces digest
  have hlibrary : ∀ host, IsHub host →
      front.toList = (host.toList ++ ["library".toList]).flatMap (· ++ ['/']) →
      Reference.parse (front ++ String.ofList name ++ "@" ++ String.ofList digest)
        = .ok ⟨defaultRegistry, fullPath defaultRegistry ["library".toList, name], digest⟩ := by
    intro host hhub hpieces
    refine Reference.parse_hub hhub (by simp) ?_
      (List.forall_mem_cons.2 ⟨isRuns_library, by simpa using hname⟩) hdigest ?_
    · rintro - first second more he
      obtain ⟨rfl, -⟩ := List.cons.inj he
      exact isRuns_library.not_marksHost (by decide) (by decide)
    · have htext := toList_spelling (List.cons_ne_nil name []) hpieces digest
      rwa [List.append_assoc] at htext
  simp only [spellings, List.mem_cons, List.not_mem_nil, or_false] at hfront
  rcases hfront with rfl | rfl | rfl | rfl | rfl | rfl
  · exact hlone none (.inl rfl) (by decide)
  · exact hlibrary none (.inl rfl) (by decide)
  · exact hlone _ (.inr (.inl rfl)) (by decide)
  · exact hlibrary _ (.inr (.inl rfl)) (by decide)
  · exact hlone _ (.inr (.inr rfl)) (by decide)
  · exact hlibrary _ (.inr (.inr rfl)) (by decide)

/-- What is read as a reference is one that can be parsed. -/
theorem Reference.read_eq_ok_iff {s : String} {r : Reference} :
    Reference.read s = .ok r ↔ Reference.parse s = .ok r := mapError_eq_ok_iff

/-- **Repositories are canonical.**  The name that a reference is given by its
repository and digest refers to the same image, and all spellings of an image of the
default registry do: those of a lone component, and those of a longer path. -/
theorem Reference.read_canonical :
    (∀ s r, Reference.read s = .ok r →
      Reference.read (r.repository ++ "@" ++ String.ofList r.digest) = .ok r)
    ∧ (∀ name digest, IsRuns name → IsSha256 digest →
      ∃ r, r.repository = "index.docker.io/library/" ++ String.ofList name
        ∧ ∀ front ∈ spellings,
          Reference.read (front ++ String.ofList name ++ "@" ++ String.ofList digest) = .ok r)
    ∧ ∀ path digest, 2 ≤ path.length → (∀ component ∈ path, IsRuns component) →
      IsSha256 digest →
      ∃ r, r.repository = "index.docker.io/" ++ String.ofList (join '/' path)
        ∧ (∀ front ∈ ["docker.io/", "index.docker.io/"],
          Reference.read (front ++ String.ofList (join '/' path) ++ "@" ++ String.ofList digest)
            = .ok r)
        ∧ ((∀ first, path.head? = some first → '.' ∉ first ∧ first ≠ "localhost".toList) →
          Reference.read (String.ofList (join '/' path) ++ "@" ++ String.ofList digest)
            = .ok r) := by
  refine ⟨?_, ?_, ?_⟩
  · intro s r h
    exact read_eq_ok_iff.2 (parse_repository (read_eq_ok_iff.1 h))
  · intro name digest hname hdigest
    refine ⟨⟨defaultRegistry, ["library".toList, name], digest⟩, ?_, ?_⟩
    · have hfront : "index.docker.io/library/".toList
          = [defaultRegistry, "library".toList].flatMap (· ++ ['/']) := by decide
      exact ofList_join_append (List.cons_ne_nil name []) hfront
    · exact fun front hfront => read_eq_ok_iff.2 (parse_spelling hname hdigest hfront)
  · intro path digest hlength hruns hdigest
    have hne : path ≠ [] := by
      rintro rfl
      contradiction
    have hfull : fullPath defaultRegistry path = path := if_neg (by omega)
    have hnamed : ∀ host front, IsHub host → front.toList = host.toList.flatMap (· ++ ['/']) →
        (host = none → ∀ first second more, path = first :: second :: more → ¬ MarksHost first) →
        Reference.read (front ++ String.ofList (join '/' path) ++ "@" ++ String.ofList digest)
          = .ok ⟨defaultRegistry, path, digest⟩ := by
      intro host front hhub hfront hunmarked
      have hparse := Reference.parse_hub hhub hne hunmarked hruns hdigest
        (toList_spelling hne hfront digest)
      rw [hfull] at hparse
      exact read_eq_ok_iff.2 hparse
    refine ⟨⟨defaultRegistry, path, digest⟩, ?_, ?_, ?_⟩
    · have hfront : "index.docker.io/".toList = [defaultRegistry].flatMap (· ++ ['/']) := by
        decide
      exact ofList_join_append hne hfront
    · intro front hfront
      simp only [List.mem_cons, List.not_mem_nil, or_false] at hfront
      rcases hfront with rfl | rfl
      · exact hnamed _ _ (.inr (.inl rfl)) (by decide) nofun
      · exact hnamed _ _ (.inr (.inr rfl)) (by decide) nofun
    · intro hfirst
      refine hnamed none "" (.inl rfl) rfl ?_
      rintro - first second more rfl
      obtain ⟨hpoint, hlocal⟩ := hfirst first rfl
      exact (hruns first List.mem_cons_self).not_marksHost hpoint hlocal

/-- An image of a registry with a port, one of the default registry, and one whose path has
a point. -/
theorem images_read_canonical :
    (∃ r, Reference.read ("localhost:5000/api@" ++ String.ofList someDigest) = .ok r
        ∧ Reference.read (r.repository ++ "@" ++ String.ofList r.digest) = .ok r)
      ∧ (∃ r, r.repository = "index.docker.io/library/" ++ String.ofList "alpine".toList
        ∧ ∀ front ∈ spellings, Reference.read (front ++ String.ofList "alpine".toList ++ "@"
          ++ String.ofList someDigest) = .ok r)
      ∧ ∃ r, Reference.read ("docker.io/" ++ String.ofList (join '/' ["acme".toList, "a.b".toList])
          ++ "@" ++ String.ofList someDigest) = .ok r
        ∧ Reference.read (String.ofList (join '/' ["acme".toList, "a.b".toList]) ++ "@"
          ++ String.ofList someDigest) = .ok r := by
  have hdigest : IsSha256 someDigest := isDigest_iff.1 (by decide +kernel)
  have hruns : ∀ component ∈ ["acme".toList, "a.b".toList], IsRuns component := by
    have hall : ["acme".toList, "a.b".toList].all isComponent := by decide +kernel
    exact fun component hc => isComponent_iff.1 (List.all_eq_true.1 hall component hc)
  refine ⟨?_, ?_, ?_⟩
  · have hread : Reference.read ("localhost:5000/api@" ++ String.ofList someDigest)
        = .ok ⟨"localhost:5000".toList, ["api".toList], someDigest⟩ := by decide +kernel
    exact ⟨_, hread, Reference.read_canonical.1 _ _ hread⟩
  · exact Reference.read_canonical.2.1 _ _ (isComponent_iff.1 (by decide +kernel)) hdigest
  · obtain ⟨r, -, hfull, hshort⟩ :=
      Reference.read_canonical.2.2 _ _ (by decide) hruns hdigest
    refine ⟨r, hfull _ (by simp), hshort ?_⟩
    intro first hfirst
    obtain rfl := Option.some.inj hfirst
    exact ⟨by decide, by decide⟩

end ComponentGraph.Image
