/-
  ComponentGraph.Proofs.Package.Matching
  ────────────────────────────────
  **WHICH VULNERABILITIES A PACKAGE CARRIES.**

  A package has one key, and so has a vulnerability: the identifier that it
  gives, or else the name and version that it gives.  A component carries the
  vulnerabilities with its package's key, in the order of the report
  (`mem_vulnerabilityList_iff`).  So one that gives the package's key is never
  missed; one that gives name and version only is missed by a package with an
  identifier of its own (`surfaces_carries`).
-/
import ComponentGraph.Proofs.Package.Surfacing
import ComponentGraph.Proofs.Steps

namespace ComponentGraph

/-! ## §1. Keys. -/

namespace Package

variable {p : Package}

/-- The key of a package without an identifier: name and formatted version. -/
def versionKey (p : Package) : Json :=
  .text (p.name.inText ++ "@" ++ p.formattedVersion.inText)

/-- The key is name and version unless another identifier is given. -/
theorem key_eq_versionKey_iff :
    p.key = p.versionKey ↔ (p.id.isFilled → p.id = some p.versionKey) := by
  unfold key Field.ifFilled
  by_cases h : p.id.isFilled
  · cases hid : p.id with
    | none => simp [hid, Field.isFilled] at h
    | some id =>
      rw [hid] at h
      simp [h]
  · simp [h, versionKey]

end Package

namespace Vulnerability

variable {v : Vulnerability} {p : Package}

/-- Does the vulnerability give the package's key? -/
structure NamesKey (v : Vulnerability) (p : Package) : Prop where
  filled : (v.record.get? "PkgID").isFilled
  key : v.record.get? "PkgID" = some p.key

/-- Does the vulnerability give no key, but the package's name and version? -/
structure NamesVersion (v : Vulnerability) (p : Package) : Prop where
  unfilled : (v.record.get? "PkgID").isFilled = false
  name : v.record.get? "PkgName" = p.name
  version : v.record.get? "InstalledVersion" = p.formattedVersion

theorem NamesKey.key_eq (h : v.NamesKey p) : v.key = p.key := by
  have hf := h.filled
  rw [h.key] at hf
  simp [Vulnerability.key, Field.ifFilled, h.key, hf]

theorem NamesVersion.key_eq (h : v.NamesVersion p) : v.key = p.versionKey := by
  simp [Vulnerability.key, Field.ifFilled, h.unfilled, h.name, h.version, Package.versionKey]

end Vulnerability

/-! ## §2. What a component carries. -/

/-- What conversion gives is a library component. -/
theorem Package.eq_library_of_component {p : Package} {type : Field} {key : Json}
    {vulnerabilities : Option (List Vulnerability)} {c : Component}
    (h : p.component type key vulnerabilities = .ok c) :
    ∃ identity licenses, c = p.library identity licenses type key vulnerabilities := by
  simp only [Package.component] at h
  split at h
  · -- the package URL cannot be spelled
    obtain ⟨_, he, -⟩ := bind_eq_ok_iff.1 h
    contradiction
  · obtain ⟨identity, -, h⟩ := bind_eq_ok_iff.1 h
    split at h
    · -- some property cannot be spelled
      obtain ⟨_, he, -⟩ := bind_eq_ok_iff.1 h
      contradiction
    · obtain ⟨licenses, -, h⟩ := bind_eq_ok_iff.1 h
      exact ⟨identity, licenses, (Except.ok.inj h).symm⟩

namespace Result

variable {r : Result} {p : Package} {i : Fin r.forest.size} {v : Vulnerability}

/-- What stands for a key is a library component of some package. -/
theorem eq_library_of_converted {key : Json} {c : Component} (h : r.converted? key = some c) :
    ∃ (p : Package) (identity : Identity) (licenses : List Json),
      c = p.library identity licenses r.type key (r.vulnerabilitiesOf key) := by
  obtain ⟨p, -, hp⟩ := Option.bind_eq_some_iff.1 h
  cases hc : p.component r.type key (r.vulnerabilitiesOf key) with
  | error e => simp [hc, Except.toOption] at hp
  | ok d =>
    obtain rfl : d = c := by simpa [hc, Except.toOption] using hp
    obtain ⟨identity, licenses, rfl⟩ := Package.eq_library_of_component hc
    exact ⟨p, identity, licenses, rfl⟩

/-- A converted key carries the vulnerabilities that name it. -/
theorem vulnerabilities_of_converted {key : Json} {c : Component}
    (h : r.converted? key = some c) : c.vulnerabilities = r.vulnerabilitiesOf key := by
  obtain ⟨p, identity, licenses, rfl⟩ := eq_library_of_converted h
  rfl

theorem getD_vulnerabilitiesOf (r : Result) (key : Json) :
    (r.vulnerabilitiesOf key).getD [] = r.vulnerabilities.filter (·.key = key) := by
  simp only [vulnerabilitiesOf]
  split
  · rename_i h
    rw [h]
    rfl
  · rfl

/-- **A component carries the vulnerabilities with its package's key.** -/
theorem mem_vulnerabilityList_iff (hi : r.Surfaces p i) :
    v ∈ (r.forest.graph.component i).vulnerabilityList
      ↔ v ∈ r.vulnerabilities ∧ v.key = p.key := by
  rw [Component.vulnerabilityList, vulnerabilities_of_converted (r.converted?_keyAt i), hi.key,
    getD_vulnerabilitiesOf]
  simp

/-- **A package that surfaces carries the vulnerabilities that give its key.**
Of those that give its name and version only it carries all, unless it has an
identifier of its own. -/
theorem surfaces_carries (hi : r.Surfaces p i) (hv : v ∈ r.vulnerabilities) :
    (v.NamesKey p → v ∈ (r.forest.graph.component i).vulnerabilityList)
    ∧ (v.NamesVersion p → (v ∈ (r.forest.graph.component i).vulnerabilityList
        ↔ (p.id.isFilled → p.id = some p.versionKey))) := by
  rw [mem_vulnerabilityList_iff hi]
  constructor
  · intro h
    exact ⟨hv, h.key_eq⟩
  · intro h
    rw [← Package.key_eq_versionKey_iff, h.key_eq]
    exact ⟨fun he => he.2.symm, fun he => ⟨hv, he.symm⟩⟩

/-- A vulnerability of a package of which it gives name and version only. -/
def unkeyed (name version : String) : Vulnerability :=
  ⟨.object [("VulnerabilityID", .text "CVE-2024-0001"), ("PkgName", .text name),
    ("InstalledVersion", .text version)]⟩

/-- A package without an identifier, with epoch and release. -/
def openssl : Package :=
  { Package.plain "openssl" "3.0.7" with epoch := some (.number (.ofNat 1)), release := .ofText "r2" }

/-- A package with an identifier of its own. -/
def curl : Package := { Package.plain "curl" "8.5.0" with id := .ofText "curl-id" }

/-- Two packages of an operating system, and a vulnerability for the name and
version of each. -/
def scanned : Result where
  target := .ofText "alpine:3.15 (alpine 3.15)"
  type := .ofText "alpine"
  class_ := .ofText "os-pkgs"
  packages := [openssl, curl]
  vulnerabilities := [unkeyed "openssl" "1:3.0.7-r2", unkeyed "curl" "8.5.0"]

theorem openssl_carries : ∃ i, scanned.Surfaces openssl i
    ∧ unkeyed "openssl" "1:3.0.7-r2" ∈ scanned.vulnerabilities
    ∧ (unkeyed "openssl" "1:3.0.7-r2").NamesVersion openssl
    ∧ unkeyed "openssl" "1:3.0.7-r2" ∈ (scanned.forest.graph.component i).vulnerabilityList := by
  have hd : (scanned.packages.map Package.key).Nodup := by decide +kernel
  have hr : scanned.Reachable openssl.key := .candidate (by decide +kernel) (by decide +kernel)
  obtain ⟨i, hi⟩ := (surfaces_iff hd (by decide +kernel)).2 hr
  have hv : unkeyed "openssl" "1:3.0.7-r2" ∈ scanned.vulnerabilities := by decide +kernel
  have hn : (unkeyed "openssl" "1:3.0.7-r2").NamesVersion openssl :=
    ⟨by decide +kernel, by decide +kernel, by decide +kernel⟩
  exact ⟨i, hi, hv, hn, ((surfaces_carries hi hv).2 hn).2 (by decide +kernel)⟩

/-- A package with an identifier of its own misses a vulnerability that gives
its name and version. -/
theorem curl_misses : (scanned.packages.map Package.key).Nodup ∧ curl ∈ scanned.packages
    ∧ unkeyed "curl" "8.5.0" ∈ scanned.vulnerabilities
    ∧ (unkeyed "curl" "8.5.0").NamesVersion curl
    ∧ ∃ i, scanned.Surfaces curl i
      ∧ unkeyed "curl" "8.5.0" ∉ (scanned.forest.graph.component i).vulnerabilityList := by
  have hd : (scanned.packages.map Package.key).Nodup := by decide +kernel
  have hp : curl ∈ scanned.packages := by decide +kernel
  have hr : scanned.Reachable curl.key := .candidate (by decide +kernel) (by decide +kernel)
  obtain ⟨i, hi⟩ := (surfaces_iff hd hp).2 hr
  refine ⟨hd, hp, by decide +kernel, ⟨by decide +kernel, by decide +kernel, by decide +kernel⟩,
    i, hi, ?_⟩
  rw [mem_vulnerabilityList_iff hi]
  -- the keys are not the same
  have hk : (unkeyed "curl" "8.5.0").key ≠ curl.key := by decide +kernel
  exact fun h => hk h.2

end Result

end ComponentGraph
