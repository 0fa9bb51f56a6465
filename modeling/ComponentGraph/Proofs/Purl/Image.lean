/-
  ComponentGraph.Proofs.Purl.Image
  ────────────────────────────────
  **AN IMAGE REFERENCE MAKES A PACKAGE URL.**

  A package URL made of parts must have a name, and only certain keys among
  its qualifiers.  The last path component of an image reference is a name,
  since no component is empty, and the keys are fixed.  So the package URL of
  an image fails only where its digest is no reference (`imagePurl_error_iff`).
-/
import ComponentGraph.Proofs.Steps
import ComponentGraph.Proofs.Text.Pieces
import ComponentGraph.Report.Artifact

namespace ComponentGraph

namespace Image

open ComponentGraph.Text

/-! ## §1. Paths. -/

theorem ne_nil_of_isComponent {cs : List Char} (h : isComponent cs) : cs ≠ [] := by
  rintro rfl
  contradiction

/-- A host is taken off only where something follows it. -/
theorem splitRegistry_ne_nil {segments : List (List Char)} (h : segments ≠ []) :
    (splitRegistry segments).2 ≠ [] := by
  unfold splitRegistry
  split
  · split <;> simp
  · exact h

/-- The default library goes before the components; the last one stays last. -/
theorem getLast?_fullPath (registry : List Char) {components : List (List Char)}
    (h : components ≠ []) : (fullPath registry components).getLast? = components.getLast? := by
  unfold fullPath
  split
  · rw [List.getLast?_cons_of_ne_nil h]
  · rfl

theorem subset_splitRegistry (segments : List (List Char)) :
    (splitRegistry segments).2 ⊆ segments := by
  unfold splitRegistry
  split
  · split
    · exact List.subset_cons_self _ _
    · exact List.Subset.refl _
  · exact List.Subset.refl _

/-- **What a reference is made of**: a digest behind the last at sign, and in
front of it slashes between an optional host and path components. -/
theorem Reference.parse_eq_ok_iff {s : String} {r : Reference} :
    Reference.parse s = .ok r ↔ ∃ name, cutLast? '@' s.toList = some (name, r.digest)
      ∧ name ≠ [] ∧ isDigest r.digest ∧ isRegistry r.registry
      ∧ r.registry = (splitRegistry (split '/' name)).1
      ∧ r.path = fullPath r.registry (splitRegistry (split '/' name)).2
      ∧ ∀ component ∈ (splitRegistry (split '/' name)).2, isComponent component := by
  unfold Reference.parse
  constructor
  · intro h
    split at h
    · contradiction
    · contradiction
    · rename_i name digest hne hcut
      simp only at h
      split at h
      · contradiction
      · rename_i hdigest
        split at h
        · contradiction
        · rename_i hregistry
          split at h
          · contradiction
          · rename_i hall
            obtain rfl := Except.ok.inj h
            exact ⟨name, hcut, hne, by simpa using hdigest, by simpa using hregistry, rfl, rfl,
              List.all_eq_true.1 (by simpa using hall)⟩
  · rintro ⟨name, hcut, hne, hdigest, hregistry, hr, hpath, hall⟩
    obtain ⟨c, rest, rfl⟩ := List.exists_cons_of_ne_nil hne
    obtain ⟨registry, path, digest⟩ := r
    simp only at hr hpath hcut hdigest hregistry
    subst hr hpath
    simp only [hcut, hdigest, hregistry, List.all_eq_true.2 hall, Bool.not_true,
      Bool.false_eq_true, if_false]

theorem Reference.parse_eq_ok {s : String} {r : Reference} (h : Reference.parse s = .ok r) :
    ∃ name, cutLast? '@' s.toList = some (name, r.digest) ∧ isDigest r.digest
      ∧ r.registry = (splitRegistry (split '/' name)).1
      ∧ r.path = fullPath r.registry (splitRegistry (split '/' name)).2
      ∧ ∀ component ∈ (splitRegistry (split '/' name)).2, isComponent component := by
  obtain ⟨name, hcut, -, hdigest, -, hmade⟩ := Reference.parse_eq_ok_iff.1 h
  exact ⟨name, hcut, hdigest, hmade⟩

/-- **The path of a reference ends in a name**, a component without a slash. -/
theorem Reference.exists_name {s : String} {r : Reference} (h : Reference.parse s = .ok r) :
    ∃ name, r.path.getLast? = some name ∧ name ≠ [] ∧ '/' ∉ name ∧ isComponent name := by
  obtain ⟨name, -, -, -, hpath, hall⟩ := Reference.parse_eq_ok h
  have hsegments := splitRegistry_ne_nil (split_ne_nil '/' name)
  obtain ⟨last, hlast⟩ := Option.ne_none_iff_exists'.1 (mt List.getLast?_eq_none_iff.1 hsegments)
  have hmem := List.mem_of_getLast? hlast
  -- all components are well-formed, so the last one is
  have hcomponent := hall last hmem
  exact ⟨last, by rw [hpath, getLast?_fullPath _ hsegments, hlast],
    ne_nil_of_isComponent hcomponent, not_mem_of_mem_split (subset_splitRegistry _ hmem),
    hcomponent⟩

/-! ## §2. The package URL. -/

/-- **What a reference says always makes a package URL.** -/
theorem Reference.checked_purl {s : String} {r : Reference} (h : Reference.parse s = .ok r)
    (architecture : Field) : (r.purl architecture).checked = .ok (r.purl architecture) := by
  obtain ⟨name, hlast, hne, -⟩ := r.exists_name h
  have hname : (r.purl architecture).name ≠ "" := by
    simp [Reference.purl, hlast, hne]
  have hkeys : ((r.purl architecture).qualifiers.getD []).find? (fun q => !Purl.isKey q.1)
      = none := by
    have harch : Purl.isKey "arch" := by decide +kernel
    have hurl : Purl.isKey "repository_url" := by decide +kernel
    unfold Reference.purl
    split <;> simp [harch, hurl]
  have htype : (r.purl architecture).type ≠ "" := by simp [Reference.purl]
  unfold Purl.checked
  rw [if_neg htype, if_neg hname, hkeys]

end Image

/-- **The package URL of an image fails just where its first digest is not empty
and is no reference.** -/
theorem Metadata.imagePurl_error_iff (m : Metadata) (e : PackageUrlError) :
    m.imagePurl = .error e ↔ ∃ digest fault, m.firstDigest = some digest
      ∧ Image.Reference.parse digest = .error fault ∧ e = .badImage digest fault := by
  unfold imagePurl
  cases hd : m.firstDigest with
  | none => simp
  | some digest =>
    unfold Image.Reference.read
    cases hr : Image.Reference.parse digest with
    | error fault =>
      simp [hr, bind, Except.bind, eq_comm]
    | ok reference =>
      simp [hr, bind, Except.bind, Image.Reference.checked_purl hr, pure, Except.pure]

end ComponentGraph
