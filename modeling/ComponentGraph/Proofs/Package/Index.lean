/-
  ComponentGraph.Proofs.Package.Index
  ────────────────────────────────
  **THE INDEX, READ OFF THE PACKAGES.**

  The package list alone says what stands under a key: the last package that
  has it.  The index, the conversions and the candidates follow it:

      entryOf?_entries  — the entry of a key is its last package, converted
      keys_entries      — the entries stand in order of first mention
      candidates_eq     — the candidates are the keys that no other package
                          hides
-/
import ComponentGraph.Package.Result
import ComponentGraph.Proofs.Table

namespace ComponentGraph

namespace Result

variable (r : Result)

/-! ## §1. What the packages say of a key. -/

/-- The keys, in order of first mention. -/
def keys : List Json := (r.packages.map Package.key).eraseDups

/-- The last package that has this key. -/
def lastPackage? (key : Json) : Option Package := r.packages.reverse.find? (·.key = key)

/-- The vulnerabilities that name this key, if there are any. -/
def vulnerabilitiesOf (key : Json) : Option (List Vulnerability) :=
  let named := r.vulnerabilities.filter (·.key = key)
  if named = [] then none else some named

/-- The component of this key's last package, if it can be converted. -/
def converted? (key : Json) : Option Component :=
  (r.lastPackage? key).bind fun p =>
    (p.component r.type key (r.vulnerabilitiesOf key)).toOption

/-- Can this key's last package be converted? -/
def isConvertible (key : Json) : Bool := (r.converted? key).isSome

/-- What this key's last package depends on. -/
def dependencies (key : Json) : List Json :=
  ((r.lastPackage? key).map (·.dependsOn)).getD []

/-- Does some package depend on this key? -/
def isNeeded (key : Json) : Bool := r.packages.any fun p => key ∈ p.dependsOn

/-- Does building start with this key?  It does unless its last package is
indirect and needed. -/
def isCandidate (key : Json) : Bool :=
  (r.lastPackage? key).any fun p => !(p.indirect && r.isNeeded key)

theorem mem_of_lastPackage? {r : Result} {key : Json} {p : Package}
    (h : r.lastPackage? key = some p) : p ∈ r.packages ∧ p.key = key :=
  ⟨List.mem_reverse.1 (List.mem_of_find?_eq_some h), by simpa using List.find?_some h⟩

theorem isNeeded_iff {r : Result} {key : Json} :
    r.isNeeded key ↔ ∃ q ∈ r.packages, key ∈ q.dependsOn := by
  simp [isNeeded]

/-! ## §2. The index. -/

theorem find?_index (key : Json) : Table.find? key r.index = r.lastPackage? key := by
  have h : (r.packages.map fun p => (p.key, p)).reverse.find? (·.1 = key)
      = (r.lastPackage? key).map fun p => (p.key, p) := by
    rw [← List.map_reverse, List.find?_map]
    rfl
  rw [index, Table.find?_ofList, h, Option.map_map]
  exact Option.map_id'

theorem map_fst_index : r.index.map (·.1) = r.keys := by
  rw [index, Table.map_fst_ofList, List.map_map]
  rfl

theorem nodup_keys : r.keys.Nodup := nodup_eraseDups _

theorem mem_keys_iff {key : Json} : key ∈ r.keys ↔ (r.lastPackage? key).isSome := by
  rw [← map_fst_index, ← find?_index, Table.find?_isSome_iff]

/-- A package that shares its key with no other is the last one that has it. -/
theorem lastPackage?_of_mem {r : Result} {p : Package}
    (hd : (r.packages.map Package.key).Nodup) (hp : p ∈ r.packages) :
    r.lastPackage? p.key = some p := by
  have hs : (r.lastPackage? p.key).isSome := by
    rw [← mem_keys_iff, keys, List.mem_eraseDups]
    exact List.mem_map_of_mem hp
  obtain ⟨q, hq⟩ := Option.isSome_iff_exists.1 hs
  obtain ⟨hm, hk⟩ := mem_of_lastPackage? hq
  rw [hq, List.inj_on_of_nodup_map hd hm hp hk]

theorem dependencies_of_mem {r : Result} {p : Package}
    (hd : (r.packages.map Package.key).Nodup) (hp : p ∈ r.packages) :
    r.dependencies p.key = p.dependsOn := by
  rw [dependencies, lastPackage?_of_mem hd hp]
  rfl

theorem find?_vulnerabilityIndex (key : Json) :
    Table.find? key r.vulnerabilityIndex = r.vulnerabilitiesOf key := by
  have hk : (r.vulnerabilities.map fun v => (v.key, v)).map (·.1)
      = r.vulnerabilities.map Vulnerability.key := by
    rw [List.map_map]
    rfl
  have hv : ((r.vulnerabilities.map fun v => (v.key, v)).filter (·.1 = key)).map (·.2)
      = r.vulnerabilities.filter (·.key = key) := by
    rw [List.filter_map, List.map_map]
    exact List.map_id' _
  have hm : r.vulnerabilities.filter (·.key = key) = []
      ↔ key ∉ r.vulnerabilities.map Vulnerability.key := by
    simp [List.filter_eq_nil_iff]
  rw [vulnerabilityIndex, Table.find?_group, hk, hv, vulnerabilitiesOf]
  by_cases h : key ∈ r.vulnerabilities.map Vulnerability.key
  · have hne : r.vulnerabilities.filter (·.key = key) ≠ [] := fun he => hm.1 he h
    rw [if_pos h, if_neg hne]
  · rw [if_neg h, if_pos (hm.2 h)]

/-! ## §3. The entries. -/

/-- The entry that an indexed package becomes. -/
def entry (key : Json) (p : Package) : Entry :=
  ⟨key, p, p.component r.type key (r.vulnerabilitiesOf key)⟩

theorem entries_eq : r.entries = r.index.map fun q => r.entry q.1 q.2 := by
  apply List.map_congr_left
  intro q _
  show Entry.mk q.1 q.2 (q.2.component r.type q.1 (Table.find? q.1 r.vulnerabilityIndex)) = _
  rw [find?_vulnerabilityIndex]
  rfl

theorem keys_entries : r.entries.map (·.key) = r.keys := by
  rw [entries_eq, List.map_map, ← map_fst_index]
  rfl

/-- A look-up among the entries of a table is a look-up in the table. -/
theorem entryOf?_map_entry (key : Json) (table : List (Json × Package)) :
    entryOf? (table.map fun q => r.entry q.1 q.2) key
      = (Table.find? key table).map (r.entry key) := by
  -- both look for the first pair with the key
  induction table with
  | nil => rfl
  | cons q rest ih =>
    obtain ⟨k, p⟩ := q
    rw [entryOf?] at ih ⊢
    rw [List.map_cons, Table.find?]
    by_cases h : k = key
    · subst h
      rw [List.find?_cons_of_pos (by simp [entry]), if_pos rfl]
      rfl
    · rw [List.find?_cons_of_neg (by simp [entry, h]), if_neg h]
      exact ih

/-- **The entry of a key is its last package, converted.** -/
theorem entryOf?_entries (key : Json) :
    entryOf? r.entries key = (r.lastPackage? key).map (r.entry key) := by
  rw [entries_eq, entryOf?_map_entry, find?_index]

/-! ## §4. The candidates. -/

theorem hasParent_eq (key : Json) : hasParent r.packages key = r.isNeeded key := by
  have hm : key ∈ (edges r.packages).map (·.1) ↔ r.isNeeded key := by
    simp [edges, isNeeded]
  -- a group is never empty, so the parents are none only where nothing is grouped
  have hne : key ∈ (edges r.packages).map (·.1) →
      ((edges r.packages).filter (·.1 = key)).map (·.2) ≠ [] := by
    intro h
    obtain ⟨e, he, hk⟩ := List.mem_map.1 h
    apply List.ne_nil_of_mem (a := e.2)
    exact List.mem_map_of_mem (List.mem_filter.2 ⟨he, by simpa using hk⟩)
  rw [hasParent, parents, Table.find?_group]
  by_cases h : key ∈ (edges r.packages).map (·.1)
  · rw [if_pos h, Option.getD_some, hm.1 h]
    exact decide_eq_true (hne h)
  · rw [if_neg h]
    have hf : r.isNeeded key = false := by
      rw [← Bool.not_eq_true]
      exact fun ht => h (hm.2 ht)
    rw [hf]
    rfl

/-- **The candidates are the keys whose last package is not both indirect and
needed.** -/
theorem candidates_eq : r.candidates = r.keys.filter r.isCandidate := by
  rw [candidates, ← map_fst_index, List.filter_map]
  congr 1
  apply List.filter_congr
  intro q hq
  -- the index holds one pair a key, so a pair of it is the last package
  have hl : r.lastPackage? q.1 = some q.2 := by
    rw [← find?_index]
    exact Table.find?_of_mem (Table.nodup_ofList _) hq
  simp [isCandidate, hl, hasParent_eq]

end Result

end ComponentGraph
