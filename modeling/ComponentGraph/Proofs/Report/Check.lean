/-
  ComponentGraph.Proofs.Report.Check
  ────────────────────────────────
  **WHAT THE CHECK LETS THROUGH.**

  A document that passes the check can still be one that no graph can be made
  of.  Faults in the artifact's part are failures of the root.  In a result
  that contributes, three things escape both: a type that has no spelling, a
  package or a vulnerability without a readable key, and vulnerabilities that
  are no list (`Result.Breaks`).  Nothing else does
  (`assembleJson_shape_iff`).
-/
import ComponentGraph.Proofs.Steps
import ComponentGraph.Proofs.Table
import ComponentGraph.Report.Assembly
import ComponentGraph.Report.Load

namespace ComponentGraph

/-! ## §1. What has passed. -/

namespace Report

theorem items_of_isArrayOrAbsent {f : Field} (h : isArrayOrAbsent f) :
    f.items = .ok (arrayItems f) := by
  match f with
  | none => rfl
  | some (.array items) => rfl
  | some .null | some (.bool _) | some (.number _) | some (.text _) | some (.object _) =>
    contradiction

/-- Items without a problem have none at their places. -/
theorem firstProblem_eq_none {look : Nat → Json → Option Problem} {i : Nat} {items : List Json}
    (h : firstProblem look i items = none) : ∀ j ∈ items, ∃ k, look k j = none := by
  induction items generalizing i with
  | nil => simp
  | cons j items ih =>
    rw [firstProblem, Option.or_eq_none_iff] at h
    intro x hx
    rcases List.mem_cons.1 hx with rfl | hx
    · exact ⟨i, h.1⟩
    · exact ih h.2 x hx

/-- What the check has found out about a package. -/
theorem checkPackage_eq_none {i k : Nat} {j : Json} (h : checkPackage i k j = none) :
    j.isObject ∧ isArrayOrAbsent (j.get? "DependsOn") := by
  unfold checkPackage at h
  split at h
  · contradiction
  · split at h
    · contradiction
    · simp_all

/-- What the check has found out about a result. -/
structure PassedResult (j : Json) : Prop where
  isObject : j.isObject
  packages : isArrayOrAbsent (j.get? "Packages")
  package : ∀ p ∈ arrayItems (j.get? "Packages"),
    p.isObject ∧ isArrayOrAbsent (p.get? "DependsOn")

theorem checkResult_eq_none {i : Nat} {j : Json} (h : checkResult i j = none) :
    PassedResult j := by
  unfold checkResult at h
  split at h
  · contradiction
  · split at h
    · contradiction
    · -- an object with a list of packages, each of them looked at
      rename_i ho ha
      refine ⟨by simp_all, by simp_all, fun p hp => ?_⟩
      obtain ⟨k, hk⟩ := firstProblem_eq_none h p hp
      exact checkPackage_eq_none hk

/-- What the check has found out about a document. -/
structure Passed (j : Json) : Prop where
  isObject : j.isObject
  metadata : (j.get? "Metadata").all Json.isObject
  results : isArrayOrAbsent (j.get? "Results")
  result : ∀ r ∈ arrayItems (j.get? "Results"), PassedResult r

theorem checkJson_eq_none {j : Json} (h : checkJson j = none) : Passed j := by
  unfold checkJson at h
  split at h
  · contradiction
  · split at h
    · contradiction
    · split at h
      · contradiction
      · split at h
        · contradiction
        · split at h
          · contradiction
          · rename_i ho _ _ hm hr
            refine ⟨by simp_all, by simpa using hm, by simp_all, fun r hr => ?_⟩
            obtain ⟨k, hk⟩ := firstProblem_eq_none h r hr
            exact checkResult_eq_none hk

end Report

/-! ## §2. What a result needs beyond. -/

/-- Can the key of a package be read?  It can if there is an identifier, or
else if name, version, release and epoch can be spelled. -/
def Package.isKeyed (j : Json) : Bool :=
  (j.get? "ID").isFilled
    || (j.get? "Name").isSpellable && (j.get? "Version").isSpellable
      && (j.get? "Release").isSpellable && (j.get? "Epoch").isSpellable

/-- Can the key of a vulnerability be read?  It must be there, and name its
package by an identifier, or else by name and version that can be spelled. -/
def Vulnerability.isKeyed (j : Json) : Bool :=
  j ≠ .null && ((j.get? "PkgID").isFilled
    || (j.get? "PkgName").isSpellable && (j.get? "InstalledVersion").isSpellable)

/-- Can the field be gone through item by item? -/
def Field.isListable : Field → Bool
  | some (.bool _) | some (.number _) | some (.object _) => false
  | _ => true

namespace Result

/-- Does a result with this type and class have a component of its own? -/
def isWrapped (j : Json) : Bool :=
  placement (j.get? "Type") (j.get? "Class") = .operatingSystem
    || placement (j.get? "Type") (j.get? "Class") = .application

/-- Does a result with this type and class contribute? -/
def contributes (j : Json) : Bool := placement (j.get? "Type") (j.get? "Class") ≠ .nowhere

/-- How a result that has passed the check can still be unusable. -/
inductive Breaks (j : Json) : Prop where
  /-- Its type becomes a property, and cannot be spelled. -/
  | type : isWrapped j → (j.get? "Type").isSpellable = false → Breaks j
  /-- A package has no readable key. -/
  | package {p : Json} : contributes j → p ∈ Report.arrayItems (j.get? "Packages") →
      Package.isKeyed p = false → Breaks j
  /-- The vulnerabilities are no list. -/
  | noList : contributes j → (j.get? "Vulnerabilities").isListable = false → Breaks j
  /-- A vulnerability is missing in its place, or has no readable key. -/
  | vulnerability {v : Json} : contributes j →
      v ∈ Report.arrayItems (j.get? "Vulnerabilities") → Vulnerability.isKeyed v = false → Breaks j

end Result

/-! ## §3. Reading. -/

theorem need_of_ne_null {j : Json} (h : j ≠ .null) : Field.need (some j) = .ok j := by
  cases j with
  | null => contradiction
  | _ => rfl

theorem need_of_isObject {j : Json} (h : j.isObject) : Field.need (some j) = .ok j := by
  apply need_of_ne_null
  rintro rfl
  contradiction

theorem Package.isOk_keyedOfJson {j : Json} (ho : j.isObject)
    (hd : Report.isArrayOrAbsent (j.get? "DependsOn")) :
    (keyedOfJson j).isOk = isKeyed j := by
  unfold keyedOfJson ofJson
  simp only [need_of_isObject ho, Report.items_of_isArrayOrAbsent hd, bind, Except.bind, pure,
    Except.pure]
  exact isOk_ite _ _ _

theorem Vulnerability.isOk_ofJson (j : Json) : (ofJson j).isOk = isKeyed j := by
  by_cases h : j = .null
  · rw [h]
    rfl
  · -- anything else can be asked for its members
    unfold ofJson
    rw [need_of_ne_null h]
    refine (isOk_ite _ _ _).trans ?_
    simp only [isKeyed, ne_eq, h, not_false_eq_true, decide_true, Bool.true_and]
    rfl

/-- The characters of a text name no package, and are no fault. -/
theorem Vulnerability.isKeyed_text (s : String) : isKeyed (.text s) := rfl

/-- Vulnerabilities are read just if they are a list and each has a key. -/
theorem Vulnerability.isOk_list (f : Field) :
    (do (← f.items).mapM ofJson : Except ShapeFault (List Vulnerability)).isOk
      ↔ f.isListable ∧ ∀ v ∈ Report.arrayItems f, isKeyed v := by
  rw [isOk_bind]
  match f with
  | none => simp [Field.items, Field.isListable, Report.arrayItems, isOk_mapM]
  | some .null => simp [Field.items, Field.isListable, Report.arrayItems, isOk_mapM]
  | some (.array items) =>
    simp [Field.items, Field.isListable, Report.arrayItems, isOk_mapM, isOk_ofJson]
  | some (.text s) =>
    -- a text is gone through character by character
    simp [Field.items, Field.isListable, Report.arrayItems, isOk_mapM, isOk_ofJson, isKeyed_text]
  | some (.bool b) => simp [Field.items, Field.isListable]
  | some (.number k) => simp [Field.items, Field.isListable]
  | some (.object members) => simp [Field.items, Field.isListable]

namespace Result

theorem isOk_packagesOf {j : Json} (h : Report.PassedResult j) :
    (packagesOf (j.get? "Packages")).isOk
      ↔ ∀ p ∈ Report.arrayItems (j.get? "Packages"), Package.isKeyed p := by
  unfold packagesOf
  rw [Report.items_of_isArrayOrAbsent h.packages]
  show ((Report.arrayItems (j.get? "Packages")).mapM Package.keyedOfJson).isOk ↔ _
  rw [isOk_mapM]
  apply forall₂_congr
  intro p hp
  obtain ⟨ho, hd⟩ := h.package p hp
  rw [Package.isOk_keyedOfJson ho hd]

theorem isOk_ofJson {j : Json} (h : Report.PassedResult j) :
    (ofJson j).isOk ↔ (∀ p ∈ Report.arrayItems (j.get? "Packages"), Package.isKeyed p)
      ∧ (j.get? "Vulnerabilities").isListable
      ∧ ∀ v ∈ Report.arrayItems (j.get? "Vulnerabilities"), Vulnerability.isKeyed v := by
  rw [← isOk_packagesOf h, ← Vulnerability.isOk_list]
  unfold ofJson
  rw [need_of_isObject h.isObject]
  simp only [isOk_bind, Except.ok.injEq, exists_eq_left', isOk_pure, and_true]
  simp only [isOk_iff, exists_and_right]

/-- A result breaks if its type cannot be spelled where it has to be, or if it
contributes and cannot be read. -/
theorem breaks_iff {j : Json} (h : Report.PassedResult j) :
    Breaks j ↔ isWrapped j ∧ (j.get? "Type").isSpellable = false
      ∨ contributes j ∧ ¬ (ofJson j).isOk := by
  rw [isOk_ofJson h]
  constructor
  · intro hb
    cases hb with
    | type hw ht => exact .inl ⟨hw, ht⟩
    | package hc hp hk =>
      refine .inr ⟨hc, fun hall => ?_⟩
      simp [hall.1 _ hp] at hk
    | noList hc hl =>
      refine .inr ⟨hc, fun hall => ?_⟩
      simp [hall.2.1] at hl
    | vulnerability hc hv hk =>
      refine .inr ⟨hc, fun hall => ?_⟩
      simp [hall.2.2 _ hv] at hk
  · rintro (⟨hw, ht⟩ | ⟨hc, hall⟩)
    · exact .type hw ht
    · -- packages are read first, then vulnerabilities
      by_cases hp : ∀ p ∈ Report.arrayItems (j.get? "Packages"), Package.isKeyed p
      · by_cases hl : (j.get? "Vulnerabilities").isListable
        · have hv : ¬ ∀ v ∈ Report.arrayItems (j.get? "Vulnerabilities"), Vulnerability.isKeyed v :=
            fun hv => hall ⟨hp, hl, hv⟩
          obtain ⟨v, hv, hk⟩ : ∃ v ∈ Report.arrayItems (j.get? "Vulnerabilities"),
              Vulnerability.isKeyed v = false := by simpa using hv
          exact .vulnerability hc hv hk
        · exact .noList hc (by simpa using hl)
      · obtain ⟨p, hp, hk⟩ : ∃ p ∈ Report.arrayItems (j.get? "Packages"),
            Package.isKeyed p = false := by simpa using hp
        exact .package hc hp hk

theorem isOk_spelled (f : Field) : f.spelled.isOk = f.isSpellable := isOk_ite _ _ _

/-- **A result that has passed the check is read just if it does not break.** -/
theorem isOk_ofReport {metadata : Field} (hm : metadata.need.isOk) {j : Json}
    (h : Report.PassedResult j) : (ofReport metadata j).isOk ↔ ¬ Breaks j := by
  rw [breaks_iff h]
  unfold ofReport isWrapped contributes
  rw [need_of_isObject h.isObject]
  cases hp : placement (j.get? "Type") (j.get? "Class") with
  | floating => simp [isOk_bind, hp]
  | nowhere => simp [isOk_bind, hp]
  | operatingSystem => simp [isOk_bind, hp, ← isOk_spelled, ← isOk_iff, hm]
  | application => simp [isOk_bind, hp, ← isOk_spelled, ← isOk_iff]

end Result

/-! ## §4. Documents with their defaults. -/

namespace Report

theorem get?_withDefault_ne {name other : String} (value j : Json) (h : other ≠ name) :
    (withDefault name value j).get? other = j.get? other := by
  unfold withDefault
  split
  · exact (Table.find?_set _ _ _ _).trans (if_neg h)
  · rfl

/-- A member that an object lacks is there with its default. -/
theorem get?_withDefault_self {name : String} {value j : Json} (h : j.isObject)
    (hn : j.get? name = none) : (withDefault name value j).get? name = some value := by
  cases j with
  | object members =>
    unfold withDefault
    rw [hn]
    exact (Table.find?_set _ _ _ _).trans (if_pos rfl)
  | _ => contradiction

theorem isObject_withDefault {name : String} {value j : Json} (h : j.isObject) :
    (withDefault name value j).isObject := by
  unfold withDefault
  split
  · rfl
  · exact h

/-- A member that is there stays as it is, unless it is null. -/
theorem get?_withDefault_some {name : String} {value j m : Json} (hn : j.get? name = some m)
    (hm : m ≠ .null) : (withDefault name value j).get? name = some m := by
  unfold withDefault
  split
  · rename_i hv
    rw [hn] at hv
    cases m <;> simp_all [Field.value?]
  · exact hn

theorem get?_results_withDefaults (v : Json) : (withDefaults v).get? "Results" = v.get? "Results" := by
  unfold withDefaults
  rw [get?_withDefault_ne _ _ (by decide), get?_withDefault_ne _ _ (by decide)]

/-- Metadata is there after loading. -/
theorem need_metadata_withDefaults {v : Json} (h : Passed v) :
    ((withDefaults v).get? "Metadata").need.isOk := by
  unfold withDefaults
  have hv : (withDefault "SchemaVersion" (.number .zero) v).get? "Metadata" = v.get? "Metadata" :=
    get?_withDefault_ne _ _ (by decide)
  have ho : (withDefault "SchemaVersion" (.number .zero) v).isObject :=
    isObject_withDefault h.isObject
  cases hm : v.get? "Metadata" with
  | none =>
    -- the default is an object
    rw [get?_withDefault_self ho (hv.trans hm)]
    rfl
  | some m =>
    have hobj : m.isObject := by simpa [hm] using h.metadata
    have hne : m ≠ .null := by
      rintro rfl
      contradiction
    rw [get?_withDefault_some (hv.trans hm) hne, need_of_isObject hobj]
    rfl

/-! ## §5. What escapes. -/

/-- Can the artifact of a document be read, and has it a root? -/
def HasRoot (v : Json) : Prop :=
  ∃ artifact root, Artifact.ofJson v = .ok artifact ∧ artifact.root = .ok root

/-- A report is read from its results; the artifact is known. -/
theorem ofJson_eq_ok {artifact : Artifact} {v : Json} {r : Report}
    (h : Report.ofJson artifact v = .ok r) : r.artifact = artifact := by
  unfold Report.ofJson at h
  cases hi : (v.get? "Results").items with
  | error e => simp [hi, bind, Except.bind] at h
  | ok items =>
    cases hm : items.mapM (Result.ofReport (v.get? "Metadata")) with
    | error e => simp [hi, hm, bind, Except.bind] at h
    | ok results =>
      simp only [hi, hm, bind, Except.bind, pure, Except.pure, Except.ok.injEq] at h
      rw [← h]

/-- **The results of a document that has passed the check are read just if none
of them breaks.** -/
theorem isOk_ofJson {v : Json} (h : Passed v) (artifact : Artifact) :
    (Report.ofJson artifact (withDefaults v)).isOk
      ↔ ¬ ∃ j ∈ arrayItems (v.get? "Results"), Result.Breaks j := by
  unfold Report.ofJson
  rw [get?_results_withDefaults, items_of_isArrayOrAbsent h.results]
  simp only [isOk_bind, Except.ok.injEq, exists_eq_left', isOk_pure, and_true, ← isOk_iff, isOk_mapM,
    not_exists, not_and]
  apply forall₂_congr
  intro j hj
  exact Result.isOk_ofReport (need_metadata_withDefaults h) (h.result j hj)

end Report

/-- What assembling comes to, once the artifact is known. -/
theorem assembleJson_shape_iff_of_root {v : Json} {artifact : Artifact} {root : Component}
    (ha : Artifact.ofJson v = .ok artifact) (hr : artifact.root = .ok root) :
    (∃ fault, assembleJson v = .error (.shape fault)) ↔ ¬ (Report.ofJson artifact v).isOk := by
  unfold assembleJson
  rw [ha]
  cases hj : Report.ofJson artifact v with
  | error fault => simp [hr, hj, bind, Except.bind, Except.isOk, Except.toBool]
  | ok r =>
    have hroot : r.artifact.root = .ok root := by
      rw [Report.ofJson_eq_ok hj]
      exact hr
    simp [hr, hj, hroot, Report.assemble, bind, Except.bind, Except.map,
      Except.isOk, Except.toBool, pure, Except.pure]

/-- **A fault escapes from a document that has passed the check just if it has
a root and one of its results breaks.** -/
theorem assembleJson_shape_iff (v : Json) (h : Report.checkJson v = none) :
    (∃ fault, assembleJson (Report.withDefaults v) = .error (.shape fault))
      ↔ Report.HasRoot (Report.withDefaults v)
        ∧ ∃ j ∈ Report.arrayItems (v.get? "Results"), Result.Breaks j := by
  have hp := Report.checkJson_eq_none h
  constructor
  · rintro ⟨fault, hf⟩
    -- only the part of the results faults like this
    cases ha : Artifact.ofJson (Report.withDefaults v) with
    | error e =>
      unfold assembleJson at hf
      simp [ha, bind, Except.bind] at hf
    | ok artifact =>
      cases hr : artifact.root with
      | error e =>
        unfold assembleJson at hf
        simp [ha, hr, bind, Except.bind] at hf
      | ok root =>
        refine ⟨⟨artifact, root, ha, hr⟩, ?_⟩
        have hn := (assembleJson_shape_iff_of_root ha hr).1 ⟨fault, hf⟩
        rw [Report.isOk_ofJson hp, not_not] at hn
        exact hn
  · rintro ⟨⟨artifact, root, ha, hr⟩, hb⟩
    rw [assembleJson_shape_iff_of_root ha hr, Report.isOk_ofJson hp, not_not]
    exact hb

/-- A document whose one result says that there are vulnerabilities, where it
should list them. -/
def unlisted : Json := .object [
  ("ArtifactName", .text "app"),
  ("ArtifactType", .text "filesystem"),
  ("Results", .array [.object [
    ("Target", .text "package-lock.json"),
    ("Class", .text "lang-pkgs"),
    ("Vulnerabilities", .bool true)]])]

theorem unlisted_escapes : Report.checkJson unlisted = none
    ∧ ∃ fault, assembleJson (Report.withDefaults unlisted) = .error (.shape fault) := by
  have hcheck : Report.checkJson unlisted = none := by decide +kernel
  refine ⟨hcheck, (assembleJson_shape_iff unlisted hcheck).2 ⟨⟨_, _, rfl, rfl⟩, ?_⟩⟩
  exact ⟨_, List.mem_cons_self, .noList (by decide +kernel) rfl⟩

end ComponentGraph
