/-
  ComponentGraph.Proofs.Purl.ImageReading
  ────────────────────────────────
  **THE PACKAGE URL OF AN IMAGE READS BACK.**

  Of the parts that an image's package URL is made of, the reference decides
  all but the architecture: a name without slashes, a digest that is not
  empty, and the repository.  So it is legible whatever text the architecture
  is (`Reference.isLegible_purl`), and all that the image was built from is
  read out of its written form again.
-/
import ComponentGraph.Proofs.Purl.Image
import ComponentGraph.Proofs.Purl.Legible
import ComponentGraph.Proofs.Text.Lowercase

namespace ComponentGraph

open ComponentGraph.Text

namespace Image

variable {s : String} {r : Reference}

/-! ## §1. References. -/

theorem ne_nil_of_isDigest {cs : List Char} (h : isDigest cs) : cs ≠ [] := by
  rintro rfl
  revert h
  decide

/-- **The name of an image is what stands behind the last slash of its repository.** -/
theorem Reference.exists_repository (h : Reference.parse s = .ok r) (architecture : Field) :
    '/' ∉ (r.purl architecture).name.toList
      ∧ ∃ before, r.repository = before ++ "/" ++ (r.purl architecture).name := by
  obtain ⟨name, hlast, -, hslash, -⟩ := r.exists_name h
  have hname : (r.purl architecture).name = String.ofList name := by
    rw [Reference.purl, hlast, Option.getD_some]
  obtain ⟨front, hfront⟩ := List.getLast?_eq_some_iff.1 hlast
  rw [hname, String.toList_ofList]
  refine ⟨hslash, String.ofList (join '/' (r.registry :: front)), ?_⟩
  rw [Reference.repository, hfront, ← List.cons_append, join_concat '/' (by simp),
    String.ofList_append, String.ofList_cons, String.append_assoc]
  rfl

/-! ## §2. Names in lower case. -/

/-- A character that may stand in a path component. -/
def isComponentChar (c : Char) : Bool := isRunChar c || c = '.' || c = '_' || c = '-'

theorem isComponentChar_of_step {w w' : Within} {c : Char} (h : w.step c = some w') :
    isComponentChar c := by
  by_cases hrun : isRunChar c
  · simp [isComponentChar, hrun]
  · unfold Within.step at h
    rw [if_neg hrun] at h
    cases w with
    | start => contradiction
    | separator => contradiction
    | run =>
      simp only at h
      split_ifs at h <;> simp [isComponentChar, *]
    | underscore =>
      simp only at h
      split_ifs at h
      simp [isComponentChar, *]
    | dashes =>
      simp only at h
      split_ifs at h
      simp [isComponentChar, *]

theorem isComponentChar_of_mem {cs : List Char} (h : isComponent cs) :
    ∀ c ∈ cs, isComponentChar c := by
  -- from wherever the reading of the component began
  suffices hall : ∀ w w', cs.foldlM Within.step w = some w' → ∀ c ∈ cs, isComponentChar c from
    hall .start .run (by simpa [isComponent] using h)
  clear h
  induction cs with
  | nil => simp
  | cons c cs ih =>
    intro w w' h
    rw [List.foldlM_cons] at h
    obtain ⟨next, hstep, hrest⟩ := Option.bind_eq_some_iff.1 h
    exact List.forall_mem_cons.2 ⟨isComponentChar_of_step hstep, ih next w' hrest⟩

theorem isVisible_of_isComponentChar {c : Char} (h : isComponentChar c) : Purl.isVisible c := by
  simp only [isComponentChar, Bool.or_eq_true, decide_eq_true_eq] at h
  rcases h with ((h | rfl) | rfl) | rfl
  · apply Purl.isVisible_of_isAlphanum
    show (c.isUpper || c.isLower || c.isDigit) = true
    rw [Bool.or_assoc, ← isRunChar, h, Bool.or_true]
  all_goals decide

/-- Path components have no capitals. -/
theorem isLow_of_isComponentChar {c : Char} (h : isComponentChar c) : IsLow c := by
  have hall : ∀ n < 0x7F, isComponentChar (Char.ofNat n) →
      lowerChar (Char.ofNat n) = Char.ofNat n := by decide +kernel
  have hlt : c.toNat < 0x7F := by
    have hv := Purl.isVisible_iff.1 (isVisible_of_isComponentChar h)
    omega
  have hc : Char.ofNat c.toNat = c := Char.ofNat_toNat c
  refine ⟨?_, ?_, ?_⟩
  · have hown := hall c.toNat hlt
    rw [hc] at hown
    exact hown h
  · rintro rfl
    revert hlt
    decide
  · rintro rfl
    revert hlt
    decide

/-- **The name of an image is in lower case as it is.** -/
theorem Reference.lowercase_name (h : Reference.parse s = .ok r) (architecture : Field) :
    lowercase (r.purl architecture).name.toList = (r.purl architecture).name.toList := by
  obtain ⟨name, hlast, -, -, hcomponent⟩ := r.exists_name h
  rw [Reference.purl, hlast, Option.getD_some, String.toList_ofList]
  exact lowercase_of_isLow fun c hc =>
    isLow_of_isComponentChar (isComponentChar_of_mem hcomponent c hc)

/-! ## §3. Legibility. -/

/-- Both keys of an image's package URL are allowed, and stand in order. -/
theorem areQualifiers_purl (architecture : Field) (repository : String) :
    Purl.AreQualifiers ((if architecture.isFilled then [("arch", architecture.inText)] else [])
      ++ [("repository_url", repository)]) := by
  have harch : Purl.isKey "arch" := by decide +kernel
  have hurl : Purl.isKey "repository_url" := by decide +kernel
  have hbefore : atOrBefore "repository_url" "arch" = false := by decide +kernel
  split
  · exact {
      isKey := by simp [harch, hurl]
      notLost := by simp [Purl.lostKey]
      sorted := by simp [Purl.Precedes, hbefore] }
  · exact {
      isKey := by simp [hurl]
      notLost := by simp [Purl.lostKey]
      sorted := by simp }

theorem Reference.isLegible_purl (h : Reference.parse s = .ok r) (architecture : Field) :
    (r.purl architecture).IsLegible := by
  obtain ⟨name, hlast, hname, -⟩ := r.exists_name h
  obtain ⟨-, -, hdigest, -⟩ := Reference.parse_eq_ok h
  exact {
    type := by simp [Reference.purl]
    scope := by simp [Reference.purl]
    name := by simp [Reference.purl, hlast, hname]
    version := by simp [Reference.purl, ne_nil_of_isDigest hdigest]
    qualifiers := by
      intro qs hqs
      obtain rfl := Option.some.inj hqs
      exact ⟨by simp, areQualifiers_purl architecture r.repository⟩
    subpath := by simp [Reference.purl] }

/-- The ecosystem of images has no spelling of its own. -/
theorem Reference.text?_purl (r : Reference) (architecture : Field) :
    (r.purl architecture).text? = .ok (String.ofList (r.purl architecture).chars) := by
  have htype : (r.purl architecture).type = "oci" := rfl
  have hspelled : (r.purl architecture).settled = r.purl architecture := by
    have hname : Purl.spelledName "oci" (r.purl architecture).name
        = (r.purl architecture).name := by
      rw [Purl.spelledName, if_neg (by decide), if_neg (by decide)]
    rw [Purl.settled, htype, hname]
    rfl
  have hallowed : (r.purl architecture).isWritable := by
    rw [Purl.isWritable, htype, Purl.allowsName]
    simp
  rw [Purl.text?_of_isWritable hallowed, hspelled]

theorem Reference.read_chars (h : Reference.parse s = .ok r) (architecture : Field) :
    Purl.read (.ofText (String.ofList (r.purl architecture).chars))
      = .ok (r.purl architecture) := by
  have hparse : Purl.parse (String.ofList (r.purl architecture).chars)
      = .ok (r.purl architecture) := Purl.parse_chars (r.isLegible_purl h architecture)
  unfold Purl.read Field.ofText
  simp only [hparse, mapError_ok]

end Image

/-! ## §4. Images. -/

/-- **The package URL of an image reads back as what it was built from**: the name
behind the last slash of the repository, the digest, the repository and the
architecture, if there is one. -/
theorem Metadata.imagePurl_reads_back (m : Metadata) {s : String} {r : Image.Reference}
    (hdigest : m.repoDigest = some (.text s)) (hr : Image.Reference.parse s = .ok r) :
    ∃ p text before name, m.imagePurl = .ok (some p) ∧ p.text? = .ok text
      ∧ r.repository = before ++ "/" ++ name ∧ '/' ∉ name.toList
      ∧ Purl.read (.ofText text) = .ok {
          type := "oci"
          scope := none
          name
          version := some (String.ofList r.digest)
          qualifiers := some (
            (if m.architecture.isFilled then [("arch", m.architecture.inText)] else [])
              ++ [("repository_url", r.repository)])
          subpath := none } := by
  have hne : s ≠ "" := by
    rintro rfl
    contradiction
  have hfirst : m.firstDigest = some s := by
    rw [firstDigest, hdigest]
    exact if_neg hne
  have himage : m.imagePurl = .ok (some (r.purl m.architecture)) := by
    rw [imagePurl, hfirst]
    simp [Image.Reference.read, hr, Image.Reference.checked_purl hr, bind, Except.bind, pure,
      Except.pure]
  obtain ⟨hslash, before, hbefore⟩ := Image.Reference.exists_repository hr m.architecture
  exact ⟨r.purl m.architecture, String.ofList (r.purl m.architecture).chars, before,
    (r.purl m.architecture).name, himage, r.text?_purl m.architecture, hbefore, hslash,
    r.read_chars hr m.architecture⟩

/-- An image whose architecture has all that separates the parts of a package URL. -/
def oddlyBuilt : Metadata where
  architecture := .ofText "a&b=c#d+e%f g/\u00E9?h@i"
  repoDigests := [.text ("localhost:5000/acme/api_v2@sha256:"
    ++ "0f1e2d3c4b5a69780f1e2d3c4b5a69780f1e2d3c4b5a69780f1e2d3c4b5a6978")]

def oddlyBuiltReference : Image.Reference where
  registry := "localhost:5000".toList
  path := ["acme".toList, "api_v2".toList]
  digest := "sha256:0f1e2d3c4b5a69780f1e2d3c4b5a69780f1e2d3c4b5a69780f1e2d3c4b5a6978".toList

theorem oddlyBuilt_reads_back :
    ∃ p text before name, oddlyBuilt.imagePurl = .ok (some p) ∧ p.text? = .ok text
      ∧ oddlyBuiltReference.repository = before ++ "/" ++ name ∧ '/' ∉ name.toList
      ∧ Purl.read (.ofText text) = .ok {
          type := "oci"
          scope := none
          name
          version := some (String.ofList oddlyBuiltReference.digest)
          qualifiers := some [("arch", "a&b=c#d+e%f g/\u00E9?h@i"),
            ("repository_url", oddlyBuiltReference.repository)]
          subpath := none } := by
  have hparse : Image.Reference.parse ("localhost:5000/acme/api_v2@sha256:"
      ++ "0f1e2d3c4b5a69780f1e2d3c4b5a69780f1e2d3c4b5a69780f1e2d3c4b5a6978")
      = .ok oddlyBuiltReference := by decide +kernel
  exact oddlyBuilt.imagePurl_reads_back rfl hparse

end ComponentGraph
