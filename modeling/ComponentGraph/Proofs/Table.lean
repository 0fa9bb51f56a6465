/-
  ComponentGraph.Proofs.Table
  ────────────────────────────────
  **WHAT A TABLE HOLDS.**

  A table made of pairs is described by the pairs alone:

      map_fst_ofList  — its keys are the keys of the pairs, each where it
                        appears first
      find?_ofList    — a key has the value of its last pair
      find?_group     — a group holds the values of its key, in order
      group_append    — the groups of two lists of pairs are joined key by key
-/
import Mathlib.Algebra.Ring.Nat
import Mathlib.Data.List.Induction
import Mathlib.Data.List.Nodup
import ComponentGraph.Table

namespace ComponentGraph

/-! ## §1. Lists without repetitions. -/

section EraseDups

variable {α : Type} [DecidableEq α]

/-- A last item counts only if it is new. -/
theorem eraseDups_concat (l : List α) (a : α) :
    (l ++ [a]).eraseDups = if a ∈ l then l.eraseDups else l.eraseDups ++ [a] := by
  rw [List.eraseDups_append]
  by_cases h : a ∈ l
  · simp [h, List.removeAll]
  · simp [h, List.removeAll, List.eraseDups_cons]

theorem eraseDups_of_nodup {l : List α} (h : l.Nodup) : l.eraseDups = l := by
  induction l using List.reverseRecOn with
  | nil => rfl
  | append_singleton l a ih =>
    rw [List.nodup_append_comm, List.singleton_append, List.nodup_cons] at h
    rw [eraseDups_concat, if_neg h.1, ih h.2]

theorem nodup_eraseDups (l : List α) : l.eraseDups.Nodup := by
  -- from the end, where a table grows
  induction l using List.reverseRecOn with
  | nil => exact List.nodup_nil
  | append_singleton l a ih =>
    rw [eraseDups_concat]
    split
    · exact ih
    · rename_i ha
      rw [List.nodup_append_comm, List.singleton_append, List.nodup_cons]
      exact ⟨fun h => ha (List.mem_eraseDups.1 h), ih⟩

theorem eraseDups_filter (p : α → Bool) (l : List α) :
    (l.filter p).eraseDups = l.eraseDups.filter p := by
  induction l using List.reverseRecOn with
  | nil => rfl
  | append_singleton l a ih =>
    rw [List.filter_append, List.filter_singleton, eraseDups_concat]
    cases hp : p a with
    | false =>
      -- the last item is dropped, whether it is new or not
      rw [Bool.cond_false, List.append_nil, ih]
      split
      · rfl
      · rw [List.filter_append, List.filter_singleton, hp, Bool.cond_false, List.append_nil]
    | true =>
      rw [Bool.cond_true, eraseDups_concat, ih]
      by_cases ha : a ∈ l
      · rw [if_pos ha, if_pos (List.mem_filter.2 ⟨ha, hp⟩)]
      · rw [if_neg ha, if_neg fun h => ha (List.mem_filter.1 h).1, List.filter_append,
          List.filter_singleton, hp, Bool.cond_true]

end EraseDups

namespace Table

variable {κ ν : Type} [DecidableEq κ]

/-! ## §2. Single changes. -/

@[simp] theorem find?_set (key k : κ) (value : ν) (table : List (κ × ν)) :
    find? k (set key value table) = if k = key then some value else find? k table := by
  induction table with
  | nil => simp [set, find?, eq_comm]
  | cons p rest ih =>
    obtain ⟨l, v⟩ := p
    by_cases hl : l = key
    · by_cases hk : k = key
      · simp [set, find?, hl, hk]
      · simp [set, find?, hl, hk, Ne.symm hk]
    · by_cases hk : l = k
      · subst hk
        simp [set, find?, hl]
      · simp [set, find?, hl, hk, ih]

/-- A new key comes last, an old one stays where it is. -/
theorem map_fst_set (key : κ) (value : ν) (table : List (κ × ν)) :
    (set key value table).map (·.1)
      = if key ∈ table.map (·.1) then table.map (·.1) else table.map (·.1) ++ [key] := by
  induction table with
  | nil => simp [set]
  | cons p rest ih =>
    obtain ⟨l, v⟩ := p
    by_cases hl : l = key
    · simp [set, hl]
    · simp only [set, hl, if_false, List.map_cons, ih, List.mem_cons, Ne.symm hl, false_or]
      split <;> rfl

theorem set_of_not_mem {key : κ} {table : List (κ × ν)} (h : key ∉ table.map (·.1)) (value : ν) :
    set key value table = table ++ [(key, value)] := by
  induction table with
  | nil => rfl
  | cons p rest ih =>
    obtain ⟨l, v⟩ := p
    rw [List.map_cons, List.mem_cons, not_or] at h
    show (if l = key then _ else (l, v) :: set key value rest) = _
    rw [if_neg (Ne.symm h.1), ih h.2, List.cons_append]

theorem find?_add (key k : κ) (value : ν) (table : List (κ × List ν)) :
    find? k (add key value table)
      = if k = key then some ((find? key table).getD [] ++ [value]) else find? k table := by
  induction table with
  | nil => simp [add, find?, eq_comm]
  | cons p rest ih =>
    obtain ⟨l, vs⟩ := p
    by_cases hl : l = key
    · by_cases hk : k = key
      · simp [add, find?, hl, hk]
      · simp [add, find?, hl, hk, Ne.symm hk]
    · by_cases hk : l = k
      · subst hk
        simp [add, find?, hl]
      · simp [add, find?, hl, hk, ih]

/-- A new key comes last, an old one stays where it is. -/
theorem map_fst_add (key : κ) (value : ν) (table : List (κ × List ν)) :
    (add key value table).map (·.1)
      = if key ∈ table.map (·.1) then table.map (·.1) else table.map (·.1) ++ [key] := by
  induction table with
  | nil => simp [add]
  | cons p rest ih =>
    obtain ⟨l, vs⟩ := p
    by_cases hl : l = key
    · simp [add, hl]
    · simp only [add, hl, if_false, List.map_cons, ih, List.mem_cons, Ne.symm hl, false_or]
      split <;> rfl

theorem sum_length_add (key : κ) (value : ν) (table : List (κ × List ν)) :
    ((add key value table).map (·.2.length)).sum = (table.map (·.2.length)).sum + 1 := by
  induction table with
  | nil => simp [add]
  | cons p rest ih =>
    obtain ⟨l, vs⟩ := p
    unfold add
    split
    · simp only [List.map_cons, List.sum_cons, List.length_append, List.length_singleton]
      omega
    · simp only [List.map_cons, List.sum_cons, ih]
      omega

theorem find?_eq_none_iff {k : κ} {table : List (κ × ν)} :
    find? k table = none ↔ k ∉ table.map (·.1) := by
  induction table with
  | nil => simp [find?]
  | cons p rest ih =>
    obtain ⟨l, v⟩ := p
    by_cases hl : l = k
    · simp [find?, hl]
    · simp [find?, hl, ih, Ne.symm hl]

theorem find?_isSome_iff {k : κ} {table : List (κ × ν)} :
    (find? k table).isSome ↔ k ∈ table.map (·.1) := by
  rw [Option.isSome_iff_ne_none, Ne, find?_eq_none_iff, not_not]

theorem mem_of_find? {k : κ} {v : ν} {table : List (κ × ν)} (h : find? k table = some v) :
    (k, v) ∈ table := by
  induction table with
  | nil => contradiction
  | cons p rest ih =>
    obtain ⟨l, w⟩ := p
    by_cases hl : l = k
    · rw [find?, if_pos hl, Option.some.injEq] at h
      rw [hl, h]
      exact List.mem_cons_self
    · rw [find?, if_neg hl] at h
      exact List.mem_cons_of_mem _ (ih h)

theorem find?_append (k : κ) (table other : List (κ × ν)) :
    find? k (table ++ other) = (find? k table).or (find? k other) := by
  induction table with
  | nil => rfl
  | cons p rest ih =>
    obtain ⟨l, v⟩ := p
    by_cases hl : l = k
    · simp [find?, hl]
    · simp [find?, hl, ih]

/-- Values that are made from key and value are found under the same key. -/
theorem find?_map_snd {ω : Type} (f : κ → ν → ω) (k : κ) (table : List (κ × ν)) :
    find? k (table.map fun p => (p.1, f p.1 p.2)) = (find? k table).map (f k) := by
  induction table with
  | nil => rfl
  | cons p rest ih =>
    obtain ⟨l, v⟩ := p
    by_cases hl : l = k
    · subst hl
      simp [find?]
    · simp [find?, hl, ih]

/-- A filter on keys keeps all or nothing of a key. -/
theorem find?_filter_fst (q : κ → Bool) (k : κ) (table : List (κ × ν)) :
    find? k (table.filter fun p => q p.1) = if q k then find? k table else none := by
  induction table with
  | nil => simp [find?]
  | cons p rest ih =>
    obtain ⟨l, v⟩ := p
    by_cases hl : l = k
    · subst hl
      by_cases hq : q l <;> simp [find?, hq, ih]
    · by_cases hq : q l <;> simp [find?, hl, hq, ih]

/-- A table with distinct keys is a function of its keys. -/
theorem find?_of_mem {table : List (κ × ν)} (h : (table.map (·.1)).Nodup) {p : κ × ν}
    (hp : p ∈ table) : find? p.1 table = some p.2 := by
  induction table with
  | nil => contradiction
  | cons q rest ih =>
    obtain ⟨l, v⟩ := q
    rw [List.map_cons, List.nodup_cons] at h
    rcases List.mem_cons.1 hp with rfl | hr
    · simp [find?]
    · -- the first pair has another key, or this one would stand there twice
      have hne : l ≠ p.1 := by
        intro he
        apply h.1
        exact List.mem_map.2 ⟨p, hr, he.symm⟩
      simp only [find?, hne, if_false]
      exact ih h.2 hr

/-- Tables with the same keys in the same places, and the same values, are the
same. -/
theorem eq_of_find? {table other : List (κ × ν)} (hn : (table.map (·.1)).Nodup)
    (hk : table.map (·.1) = other.map (·.1)) (hf : ∀ k, find? k table = find? k other) :
    table = other := by
  induction table generalizing other with
  | nil => exact (List.map_eq_nil_iff.1 hk.symm).symm
  | cons p rest ih =>
    cases other with
    | nil => simp at hk
    | cons q rest' =>
      obtain ⟨k, v⟩ := p
      obtain ⟨l, w⟩ := q
      obtain ⟨rfl, hrest⟩ : k = l ∧ rest.map (·.1) = rest'.map (·.1) := by simpa using hk
      rw [List.map_cons, List.nodup_cons] at hn
      obtain rfl : v = w := by simpa [find?] using hf k
      rw [ih hn.2 hrest]
      intro x
      by_cases hx : k = x
      · -- neither rest has the first key again
        subst hx
        rw [find?_eq_none_iff.2 hn.1, find?_eq_none_iff.2 (hrest ▸ hn.1)]
      · simpa [find?, hx] using hf x

/-! ## §3. Tables of pairs. -/

theorem ofList_concat (pairs : List (κ × ν)) (p : κ × ν) :
    ofList (pairs ++ [p]) = set p.1 p.2 (ofList pairs) := by
  simp [ofList]

theorem group_concat (pairs : List (κ × ν)) (p : κ × ν) :
    group (pairs ++ [p]) = add p.1 p.2 (group pairs) := by
  simp [group]

/-- **The keys of a table are those of its pairs, in order of appearance.** -/
theorem map_fst_ofList (pairs : List (κ × ν)) :
    (ofList pairs).map (·.1) = (pairs.map (·.1)).eraseDups := by
  induction pairs using List.reverseRecOn with
  | nil => rfl
  | append_singleton pairs p ih =>
    rw [ofList_concat, map_fst_set, ih, List.map_append, List.map_singleton, eraseDups_concat]
    simp only [List.mem_eraseDups]

theorem nodup_ofList (pairs : List (κ × ν)) : ((ofList pairs).map (·.1)).Nodup := by
  rw [map_fst_ofList]
  exact nodup_eraseDups _

/-- Pairs with distinct keys are a table already. -/
theorem ofList_of_nodup {pairs : List (κ × ν)} (h : (pairs.map (·.1)).Nodup) :
    ofList pairs = pairs := by
  induction pairs using List.reverseRecOn with
  | nil => rfl
  | append_singleton pairs p ih =>
    rw [List.map_append, List.map_singleton, List.nodup_append_comm, List.singleton_append,
      List.nodup_cons] at h
    rw [ofList_concat, ih h.2, set_of_not_mem h.1]

/-- **A key has the value of its last pair.** -/
theorem find?_ofList (k : κ) (pairs : List (κ × ν)) :
    find? k (ofList pairs) = (pairs.reverse.find? (·.1 = k)).map (·.2) := by
  -- the last pair decides, so the induction takes the pairs from the end
  induction pairs using List.reverseRecOn with
  | nil => rfl
  | append_singleton pairs p ih =>
    rw [ofList_concat, find?_set, ih, List.reverse_append, List.reverse_singleton,
      List.singleton_append, List.find?_cons]
    by_cases h : p.1 = k
    · simp [h]
    · simp [h, Ne.symm h]

/-- **The keys of a grouped table are those of its pairs, in order of appearance.** -/
theorem map_fst_group (pairs : List (κ × ν)) :
    (group pairs).map (·.1) = (pairs.map (·.1)).eraseDups := by
  induction pairs using List.reverseRecOn with
  | nil => rfl
  | append_singleton pairs p ih =>
    rw [group_concat, map_fst_add, ih, List.map_append, List.map_singleton, eraseDups_concat]
    simp only [List.mem_eraseDups]

/-- **Grouping loses no value and adds none.** -/
theorem sum_length_group (pairs : List (κ × ν)) :
    ((group pairs).map (·.2.length)).sum = pairs.length := by
  induction pairs using List.reverseRecOn with
  | nil => rfl
  | append_singleton pairs p ih =>
    rw [group_concat, sum_length_add, ih, List.length_append, List.length_singleton]

/-- No pair has a key that is not among the keys. -/
theorem filter_fst_eq_nil {k : κ} {pairs : List (κ × ν)} (h : k ∉ pairs.map (·.1)) :
    pairs.filter (·.1 = k) = [] := by
  rw [List.filter_eq_nil_iff]
  intro q hq
  have hne : q.1 ≠ k := fun he => h (he ▸ List.mem_map_of_mem hq)
  simpa using hne

/-- **A group holds the values of its key, in order; no group is empty.** -/
theorem find?_group (k : κ) (pairs : List (κ × ν)) :
    find? k (group pairs)
      = if k ∈ pairs.map (·.1) then some ((pairs.filter (·.1 = k)).map (·.2)) else none := by
  induction pairs using List.reverseRecOn with
  | nil => simp [group, find?]
  | append_singleton pairs p ih =>
    rw [group_concat, find?_add]
    by_cases h : k = p.1
    · subst h
      rw [ih]
      by_cases hm : p.1 ∈ pairs.map (·.1)
      · simp [hm]
      · -- a new group
        simp [hm, filter_fst_eq_nil hm]
    · have hp : p.1 ≠ k := Ne.symm h
      simp only [h, if_false, ih, List.map_append, List.map_singleton, List.mem_append,
        List.mem_singleton, or_false, List.filter_append, List.filter_singleton,
        decide_eq_false hp, Bool.cond_false, List.append_nil]

/-! ## §4. Tables joined. -/

/-- Two tables as one: where both have a key, what the second holds comes
behind what the first holds; the keys of the second that are new come last. -/
def join (table other : List (κ × List ν)) : List (κ × List ν) :=
  table.map (fun p => (p.1, p.2 ++ (find? p.1 other).getD []))
    ++ other.filter (fun p => p.1 ∉ table.map (·.1))

theorem find?_join (k : κ) (table other : List (κ × List ν)) :
    find? k (join table other)
      = if k ∈ table.map (·.1) then some ((find? k table).getD [] ++ (find? k other).getD [])
        else find? k other := by
  rw [join, find?_append, find?_map_snd fun key vs => vs ++ (find? key other).getD [],
    find?_filter_fst fun key => key ∉ table.map (·.1)]
  by_cases hk : k ∈ table.map (·.1)
  · obtain ⟨vs, hvs⟩ := Option.isSome_iff_exists.1 (find?_isSome_iff.2 hk)
    simp [hk, hvs]
  · rw [find?_eq_none_iff.2 hk]
    simp [hk]

theorem map_fst_join (table other : List (κ × List ν)) :
    (join table other).map (·.1)
      = table.map (·.1) ++ (other.map (·.1)).filter (· ∉ table.map (·.1)) := by
  rw [join, List.map_append, List.map_map, List.filter_map]
  rfl

/-- **Grouping two lists of pairs one after the other joins their tables.** -/
theorem group_append (pairs others : List (κ × ν)) :
    group (pairs ++ others) = join (group pairs) (group others) := by
  have hkeys : (group (pairs ++ others)).map (·.1)
      = (join (group pairs) (group others)).map (·.1) := by
    rw [map_fst_join, map_fst_group, map_fst_group, map_fst_group, List.map_append,
      List.eraseDups_append, List.removeAll, eraseDups_filter]
    congr 1
    apply List.filter_congr
    intro k _
    simp
  refine eq_of_find? (by rw [map_fst_group]; exact nodup_eraseDups _) hkeys fun k => ?_
  rw [find?_join, map_fst_group, find?_group, find?_group, find?_group]
  by_cases hp : k ∈ pairs.map (·.1)
  · by_cases ho : k ∈ others.map (·.1)
    · simp [hp, ho]
    · simp [hp, ho, filter_fst_eq_nil ho]
  · by_cases ho : k ∈ others.map (·.1)
    · simp [hp, ho, filter_fst_eq_nil hp]
    · simp [hp, ho]

end Table

end ComponentGraph
