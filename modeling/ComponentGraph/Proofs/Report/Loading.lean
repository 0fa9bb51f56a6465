/-
  ComponentGraph.Proofs.Report.Loading
  ────────────────────────────────
  **WHAT CAN BE LOADED.**

  A file can be loaded just if it holds a document of one schema
  (`Report.isLoadable`).  The schema says nothing about the order in which the
  members are looked at; it shows only where a document is refused, since the
  fault that is named is the first one.

      checkJson_eq_none_iff — the check lets the documents of the schema
                              through, and no others
      Names                 — the fault that is named where a list of results
                              is not as it should be
      load_exact            — loading, as a whole
      load_of_written       — what was written to a file is loaded from it
-/
import ComponentGraph.Proofs.Json.RoundTrip
import ComponentGraph.Proofs.Json.Schema
import ComponentGraph.Proofs.Report.Check
import ComponentGraph.Proofs.Text.Utf8

namespace ComponentGraph

/-! ## §1. The schema. -/

/-- A package with any dependencies has a list of them. -/
def Package.isLoadable : Json → Bool := Json.fits [] [("DependsOn", Json.isArray)]

/-- A result has a target, and its packages are a list of packages. -/
def Result.isLoadable : Json → Bool :=
  Json.fits [("Target", Json.isText)] [("Packages", Json.isListOf Package.isLoadable)]

namespace Report

/-- A report names its artifact and the artifact's type; its results, if there
are any, are of this kind. -/
def fitsWith (results : Json → Bool) : Json → Bool :=
  Json.fits [("ArtifactName", Json.isFilledText), ("ArtifactType", Json.isText)]
    [("Metadata", Json.isObject), ("Results", results)]

/-- The results of a report are a list of results. -/
def isLoadable : Json → Bool := fitsWith (Json.isListOf Result.isLoadable)

/-- A report but for what its list of results holds. -/
def isFramed : Json → Bool := fitsWith Json.isArray

end Report

/-- The first item of a list that is not of this kind, and its position. -/
def IsFirstNot (kind : Json → Bool) (items : List Json) (position : Nat) (item : Json) : Prop :=
  ∃ before after, items = before ++ item :: after ∧ before.length = position
    ∧ (∀ other ∈ before, kind other) ∧ kind item = false

theorem IsFirstNot.mem {kind : Json → Bool} {items : List Json} {position : Nat} {item : Json}
    (h : IsFirstNot kind items position item) : item ∈ items := by
  obtain ⟨before, after, rfl, -⟩ := h
  simp

/-! ## §2. The check and the schema. -/

namespace Report

theorem isText_eq_any (f : Field) : isText f = f.any Json.isText := by
  cases f with
  | none => rfl
  | some j => cases j <;> rfl

theorem any_isFilledText_iff (f : Field) :
    f.any Json.isFilledText ↔ f.any Json.isText ∧ f ≠ .ofText "" := by
  cases f with
  | none => simp
  | some j => cases j <;> simp [Json.isFilledText, Json.isText, Field.ofText]

theorem isArrayOrAbsent_eq_all (f : Field) : isArrayOrAbsent f = f.all Json.isArray := by
  cases f with
  | none => rfl
  | some j => cases j <;> rfl

/-- A list of one kind is an array whose items are. -/
theorem all_isListOf_iff (kind : Json → Bool) (f : Field) :
    f.all (Json.isListOf kind) ↔ isArrayOrAbsent f ∧ ∀ j ∈ arrayItems f, kind j := by
  cases f with
  | none => simp [isArrayOrAbsent, arrayItems]
  | some j => cases j <;> simp [isArrayOrAbsent, arrayItems, Json.isListOf]

section FirstProblem

variable {look : Nat → Json → Option Problem} {kind : Json → Bool}

/-- Items have no problem just if all of them are as they should be. -/
theorem firstProblem_eq_none_iff (h : ∀ i j, look i j = none ↔ kind j) (i : Nat)
    (items : List Json) : firstProblem look i items = none ↔ ∀ j ∈ items, kind j := by
  induction items generalizing i with
  | nil => simp [firstProblem]
  | cons j items ih => rw [firstProblem, Option.or_eq_none_iff, h, ih, List.forall_mem_cons]

/-- The problem of a list is that of the first item that is not as it should
be; it is told with the item's position. -/
theorem isFirstNot_of_firstProblem (h : ∀ i j, look i j = none ↔ kind j) {i : Nat}
    {items : List Json} {problem : Problem} (hp : firstProblem look i items = some problem) :
    ∃ position item, IsFirstNot kind items position item
      ∧ look (i + position) item = some problem := by
  induction items generalizing i with
  | nil => contradiction
  | cons j items ih =>
    rw [firstProblem] at hp
    cases hj : look i j with
    | some found =>
      -- it is the item at hand
      rw [hj, Option.some_or] at hp
      have hk : kind j = false := by
        rw [← Bool.not_eq_true, ← h i, hj]
        simp
      exact ⟨0, j, ⟨[], items, rfl, rfl, by simp, hk⟩, hj.trans hp⟩
    | none =>
      -- it is among those that follow, one position further
      rw [hj, Option.none_or] at hp
      obtain ⟨position, item, ⟨before, after, rfl, hlen, hbefore, hk⟩, hlook⟩ := ih hp
      refine ⟨position + 1, item, ⟨j :: before, after, rfl, ?_, ?_, hk⟩, ?_⟩
      · rw [List.length_cons, hlen]
      · exact List.forall_mem_cons.2 ⟨(h i j).1 hj, hbefore⟩
      · rw [← hlook]
        congr 1
        omega

end FirstProblem

/-- A part of the check is passed if what it looks for is not found, and the
rest of the check is passed. -/
theorem ite_problem_eq_none_iff {c : Prop} [Decidable c] (problem : Problem)
    (rest : Option Problem) : (if c then some problem else rest) = none ↔ ¬ c ∧ rest = none := by
  by_cases hc : c <;> simp [hc]

theorem checkPackage_eq_none_iff (i k : Nat) (j : Json) :
    checkPackage i k j = none ↔ Package.isLoadable j := by
  unfold checkPackage Package.isLoadable Json.fits
  rw [ite_problem_eq_none_iff, ite_problem_eq_none_iff, isArrayOrAbsent_eq_all]
  simp

theorem checkResult_eq_none_iff (i : Nat) (j : Json) :
    checkResult i j = none ↔ Result.isLoadable j := by
  have hlist := all_isListOf_iff Package.isLoadable (j.get? "Packages")
  unfold checkResult Result.isLoadable Json.fits
  rw [ite_problem_eq_none_iff, ite_problem_eq_none_iff,
    firstProblem_eq_none_iff (checkPackage_eq_none_iff i), isText_eq_any]
  simp [hlist, and_assoc]

/-- **The check lets through just the documents of the schema.** -/
theorem checkJson_eq_none_iff (j : Json) : checkJson j = none ↔ isLoadable j := by
  have hname := any_isFilledText_iff (j.get? "ArtifactName")
  have hlist := all_isListOf_iff Result.isLoadable (j.get? "Results")
  unfold checkJson isLoadable fitsWith Json.fits
  simp only [ite_problem_eq_none_iff, firstProblem_eq_none_iff checkResult_eq_none_iff,
    isText_eq_any]
  simp [hname, hlist, and_assoc]

end Report

/-! ## §3. The fault that is named. -/

/-- Has a result a target? -/
def Result.hasTarget : Json → Bool := Json.fits [("Target", Json.isText)] []

/-- What is said of a result at this position that is not as it should be.  Of
its packages it is the first faulty one that is named. -/
inductive Result.Names (i : Nat) (j : Json) : String → Prop where
  | target : hasTarget j = false → Names i j ("result " ++ i.repr ++ " has no 'Target'")
  | packages {f : Json} : hasTarget j → j.get? "Packages" = some f → f.isArray = false →
      Names i j ("result " ++ i.repr ++ " 'Packages' must be an array")
  | package {packages : List Json} {k : Nat} {p : Json} :
      hasTarget j → j.get? "Packages" = some (.array packages) →
      IsFirstNot Package.isLoadable packages k p → p.isObject = false →
      Names i j ("result " ++ i.repr ++ " package " ++ k.repr ++ " must be an object")
  | dependsOn {packages : List Json} {k : Nat} {p f : Json} :
      hasTarget j → j.get? "Packages" = some (.array packages) →
      IsFirstNot Package.isLoadable packages k p →
      p.isObject → p.get? "DependsOn" = some f → f.isArray = false →
      Names i j ("result " ++ i.repr ++ " package " ++ k.repr ++ " 'DependsOn' must be an array")

namespace Report

theorem exists_of_not_isArrayOrAbsent {f : Field} (h : ¬ isArrayOrAbsent f) :
    ∃ j, f = some j ∧ j.isArray = false := by
  rw [isArrayOrAbsent_eq_all] at h
  cases f with
  | none => simp at h
  | some j => exact ⟨j, rfl, by simpa using h⟩

theorem eq_array_of_mem_arrayItems {f : Field} {j : Json} (h : j ∈ arrayItems f) :
    f = some (.array (arrayItems f)) := by
  cases f with
  | none => simp [arrayItems] at h
  | some v => cases v <;> simp_all [arrayItems]

/-- What the check says of the first faulty package of a result. -/
theorem names_of_checkPackage {i k : Nat} {j p : Json} {packages : List Json} {problem : Problem}
    (ht : Result.hasTarget j) (hf : j.get? "Packages" = some (.array packages))
    (hfirst : IsFirstNot Package.isLoadable packages k p)
    (h : checkPackage i k p = some problem) : Result.Names i j problem.message := by
  unfold checkPackage at h
  split at h
  · rename_i hn
    obtain rfl := Option.some.inj h
    exact .package ht hf hfirst (by simpa using hn)
  · rename_i ho
    split at h
    · rename_i hn
      obtain ⟨f, hd, hfalse⟩ := exists_of_not_isArrayOrAbsent (by simpa using hn)
      obtain rfl := Option.some.inj h
      exact .dependsOn ht hf hfirst (by simpa using ho) hd hfalse
    · contradiction

/-- What the check says of a result. -/
theorem names_of_checkResult {i : Nat} {j : Json} {problem : Problem}
    (h : checkResult i j = some problem) : Result.Names i j problem.message := by
  have htarget : (j.isObject && isText (j.get? "Target")) = Result.hasTarget j := by
    simp [Result.hasTarget, Json.fits, isText_eq_any]
  unfold checkResult at h
  rw [htarget] at h
  split at h
  · rename_i hn
    obtain rfl := Option.some.inj h
    exact .target (by simpa using hn)
  · rename_i ht
    have ht : Result.hasTarget j := by simpa using ht
    split at h
    · rename_i hn
      obtain ⟨f, hf, hfalse⟩ := exists_of_not_isArrayOrAbsent (by simpa using hn)
      obtain rfl := Option.some.inj h
      exact .packages ht hf hfalse
    · -- only its packages are left
      obtain ⟨k, p, hfirst, hp⟩ := isFirstNot_of_firstProblem (checkPackage_eq_none_iff i) h
      rw [Nat.zero_add] at hp
      exact names_of_checkPackage ht (eq_array_of_mem_arrayItems hfirst.mem) hfirst hp

/-- Of a document that is a report but for its results, the first result that
is not as it should be is named. -/
theorem names_of_isFramed {v : Json} {problem : Problem} (hv : isFramed v)
    (h : checkJson v = some problem) :
    ∃ results i j, v.get? "Results" = some (.array results)
      ∧ IsFirstNot Result.isLoadable results i j ∧ Result.Names i j problem.message := by
  have hframe : checkJson v = firstProblem checkResult 0 (arrayItems (v.get? "Results")) := by
    have hname := any_isFilledText_iff (v.get? "ArtifactName")
    unfold isFramed fitsWith Json.fits at hv
    unfold checkJson
    simp_all [isText_eq_any, isArrayOrAbsent_eq_all]
  rw [hframe] at h
  obtain ⟨i, j, hfirst, hj⟩ := isFirstNot_of_firstProblem checkResult_eq_none_iff h
  rw [Nat.zero_add] at hj
  exact ⟨_, i, j, eq_array_of_mem_arrayItems hfirst.mem, hfirst, names_of_checkResult hj⟩

/-- The second package of the second result is named. -/
example : (checkJson (.object [
    ("ArtifactName", .text "app"),
    ("ArtifactType", .text "vm"),
    ("Results", .array [
      .object [("Target", .text "a")],
      .object [("Target", .text "b"), ("Packages", .array [.object [], .null, .null])]])])).map
    Problem.message = some "result 1 package 1 must be an object" := by decide +kernel

/-! ## §4. Defaults. -/

/-- A document as it is loaded: all its members, with a schema version of zero
and empty metadata where there are none. -/
structure Completes (v out : Json) : Prop where
  isObject : out.isObject
  version : out.get? "SchemaVersion" = some ((v.get? "SchemaVersion").value?.getD (.number .zero))
  metadata : out.get? "Metadata" = some ((v.get? "Metadata").getD (.object []))
  others : ∀ name, name ≠ "SchemaVersion" → name ≠ "Metadata" → out.get? name = v.get? name

theorem eq_some_of_value? {f : Field} {j : Json} (h : f.value? = some j) : f = some j := by
  unfold Field.value? at h
  split at h
  · contradiction
  · exact h

/-- After completion a member is there: the one that was, or the default. -/
theorem get?_withDefault {name : String} {value j : Json} (h : j.isObject) :
    (withDefault name value j).get? name = some ((j.get? name).value?.getD value) := by
  cases j with
  | object members =>
    cases hv : ((Json.object members).get? name).value? with
    | none =>
      simp only [withDefault, hv]
      exact (Table.find?_set _ _ _ _).trans (if_pos rfl)
    | some m =>
      simp only [withDefault, hv]
      exact eq_some_of_value? hv
  | _ => contradiction

theorem completes_withDefaults {v : Json} (h : isLoadable v) : Completes v (withDefaults v) := by
  have ho : v.isObject := Json.isObject_of_fits h
  have ho' : (withDefault "SchemaVersion" (.number .zero) v).isObject := isObject_withDefault ho
  refine ⟨isObject_withDefault ho', ?_, ?_, ?_⟩
  · unfold withDefaults
    rw [get?_withDefault_ne _ _ (by decide), get?_withDefault ho]
  · unfold withDefaults
    rw [get?_withDefault ho', get?_withDefault_ne _ _ (by decide)]
    -- metadata that is there is an object, and not null
    cases hm : v.get? "Metadata" with
    | none => rfl
    | some m =>
      have hobj : (v.get? "Metadata").all Json.isObject := Json.fits_may h (by simp)
      rw [hm] at hobj
      cases m <;> first | rfl | contradiction
  · intro name hs hm
    unfold withDefaults
    rw [get?_withDefault_ne _ _ hm, get?_withDefault_ne _ _ hs]

/-! ## §5. Loading. -/

/-- What a path leads to is a file that holds this document. -/
def Holds (look? : String → Option FileContent) (path : String) (v : Json) : Prop :=
  ∃ bytes, look? path = some (.file bytes) ∧ Json.read? (decodeFile bytes) = some v

/-- How loading from a path ends. -/
structure LoadsExactly (look? : String → Option FileContent) (path : String) : Prop where
  /-- It succeeds just where there is a document of the schema. -/
  ok_iff : (∃ out, load look? path = .ok out) ↔ ∃ v, Holds look? path v ∧ isLoadable v
  /-- The document is returned with its defaults. -/
  completes : ∀ out, load look? path = .ok out → ∃ v, Holds look? path v ∧ Completes v out
  /-- A failure says where it occurred. -/
  carries : ∀ e, load look? path = .error e → e.path = path
  /-- Where only results are not as they should be, the first of them is named. -/
  names : ∀ v, Holds look? path v → isFramed v → isLoadable v = false →
    ∃ e results i j text, load look? path = .error e ∧ v.get? "Results" = some (.array results)
      ∧ IsFirstNot Result.isLoadable results i j ∧ Result.Names i j text
      ∧ e.message = "Invalid report (" ++ text ++ "): " ++ path

variable {look? : String → Option FileContent} {path : String} {v out : Json}

theorem load_of_holds (h : Holds look? path v) : load look? path = match checkJson v with
    | some problem => .error ⟨path, .invalid problem⟩
    | none => .ok (withDefaults v) := by
  obtain ⟨bytes, hlook, hread⟩ := h
  unfold load ofContent
  rw [hlook]
  simp only [hread]
  cases checkJson v <;> rfl

/-- Loading goes well just with a document of the schema, and completes it. -/
theorem load_eq_ok_iff :
    load look? path = .ok out ↔ ∃ v, Holds look? path v ∧ isLoadable v ∧ withDefaults v = out := by
  constructor
  · intro h
    -- there is something, it is a file, and it reads as a document
    unfold load ofContent at h
    split at h
    · contradiction
    · contradiction
    · rename_i bytes hlook
      split at h
      · contradiction
      · rename_i v hread
        cases hc : checkJson v with
        | some problem => simp [hc] at h
        | none =>
          simp only [hc, mapError_ok, Except.ok.injEq] at h
          exact ⟨v, ⟨bytes, hlook, hread⟩, (checkJson_eq_none_iff v).1 hc, h⟩
  · rintro ⟨v, hv, hl, rfl⟩
    rw [load_of_holds hv, (checkJson_eq_none_iff v).2 hl]

/-- **The text of a file is the one that was encoded.** -/
@[simp] theorem decodeFile_encode (cs : List Char) : decodeFile (Text.Utf8.encode cs) = cs :=
  Text.Utf8.decodeLossy_of_decode? (Text.Utf8.decode?_encode cs)

section Written

variable {indent : String} (hindent : ∀ c ∈ indent.toList, Json.isBlank c) (hv : v.IsTextual)
  (hlook : look? path = some (.file (Text.Utf8.encode (Json.pretty indent v).toList)))

include hindent hv hlook

theorem holds_of_written : Holds look? path v := by
  refine ⟨_, hlook, ?_⟩
  rw [decodeFile_encode]
  exact Json.ofString?_pretty hindent hv

/-- **What was written to a file is loaded from it**, if it is of the schema. -/
theorem load_of_written (hl : isLoadable v) : load look? path = .ok (withDefaults v) :=
  load_eq_ok_iff.2 ⟨v, holds_of_written hindent hv hlook, hl, rfl⟩

end Written

/-- A file with a report; its artifact's name has a letter beyond ASCII. -/
example :
    let report : Json :=
      .object [("ArtifactName", .text "naïve"), ("ArtifactType", .text "filesystem")]
    let bytes := Text.Utf8.encode (Json.pretty "  " report).toList
    load (fun name => if name = "app.json" then some (.file bytes) else none) "app.json"
      = .ok (withDefaults report) := by
  intro report bytes
  have htextual : report.IsTextual := .object (by decide) (by simp [Json.IsTextual.text])
  have hindent : ∀ c ∈ "  ".toList, Json.isBlank c := List.all_eq_true.1 rfl
  exact load_of_written hindent htextual (if_pos rfl) (by decide)

theorem message_invalid (path : String) (problem : Problem) :
    LoadError.message ⟨path, .invalid problem⟩
      = "Invalid report (" ++ problem.message ++ "): " ++ path := by
  have hparen : "): " = ")" ++ ": " := rfl
  rw [hparen, ← String.append_assoc]
  rfl

theorem path_of_load_error {e : LoadError} (h : load look? path = .error e) : e.path = path := by
  unfold load at h
  obtain ⟨fault, -, rfl⟩ := mapError_eq_error_iff.1 h
  rfl

/-- **A report is loaded just from a file that holds a document of the schema.
Otherwise the failure carries the path, and where the fault is in a result it
names the first one.** -/
theorem load_exact (look? : String → Option FileContent) (path : String) :
    LoadsExactly look? path := by
  refine ⟨?_, ?_, ?_, ?_⟩
  · simp only [load_eq_ok_iff]
    constructor
    · rintro ⟨out, v, hv, hl, -⟩
      exact ⟨v, hv, hl⟩
    · rintro ⟨v, hv, hl⟩
      exact ⟨withDefaults v, v, hv, hl, rfl⟩
  · intro out h
    obtain ⟨v, hv, hl, rfl⟩ := load_eq_ok_iff.1 h
    exact ⟨v, hv, completes_withDefaults hl⟩
  · intro e h
    exact path_of_load_error h
  · intro v hv hframe hl
    cases hc : checkJson v with
    | none => simp [(checkJson_eq_none_iff v).1 hc] at hl
    | some problem =>
      obtain ⟨results, i, j, hresults, hfirst, hnames⟩ := names_of_isFramed hframe hc
      refine ⟨⟨path, .invalid problem⟩, results, i, j, problem.message, ?_, hresults, hfirst, hnames,
        message_invalid path problem⟩
      rw [load_of_holds hv, hc]

end Report

end ComponentGraph
