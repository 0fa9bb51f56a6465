/-
  ComponentGraph.Proofs.Purl.Qualifiers
  ────────────────────────────────
  **QUALIFIERS STAY IN ORDER.**

  Giving a key a value puts it where it belongs, or in place of the value that
  was there.  So qualifiers stay sorted, each key once
  (`AreQualifiers.setKey`), and all other keys keep their values
  (`find?_setKey`).  What is read from a query is put in this way, one pair
  after the other (`areQualifiers_qualifiersOf`).
-/
import ComponentGraph.Proofs.Purl.Legible
import ComponentGraph.Proofs.Text.Units
import ComponentGraph.Table

namespace ComponentGraph.Purl

open ComponentGraph.Text

/-! ## §1. The order of keys. -/

theorem precedes_of_atOrBefore {a b : String × String} (h : atOrBefore a.1 b.1)
    (hne : a.1 ≠ b.1) : Precedes a b := by
  refine ⟨hne, ?_⟩
  rw [← Bool.not_eq_true]
  exact fun hback => hne (eq_of_atOrBefore h hback)

theorem Precedes.atOrBefore {a b : String × String} (h : Precedes a b) : atOrBefore a.1 b.1 := by
  refine (atOrBefore_total a.1 b.1).resolve_right ?_
  rw [h.2]
  exact Bool.false_ne_true

theorem Precedes.trans {a b c : String × String} (hab : Precedes a b) (hbc : Precedes b c) :
    Precedes a c := by
  refine precedes_of_atOrBefore (atOrBefore_trans hab.atOrBefore hbc.atOrBefore) fun he => ?_
  -- two texts around a third one would be this one
  exact hab.1 (eq_of_atOrBefore hab.atOrBefore (he ▸ hbc.atOrBefore))

/-! ## §2. Giving a key a value. -/

variable {key value : String} {qs : List (String × String)}

theorem mem_of_mem_setKey {q : String × String} (h : q ∈ setKey key value qs) :
    q = (key, value) ∨ q ∈ qs := by
  induction qs with
  | nil => exact .inl (List.mem_singleton.1 h)
  | cons p rest ih =>
    obtain ⟨k, v⟩ := p
    unfold setKey at h
    split at h
    · exact (List.mem_cons.1 h).imp_right (List.mem_cons_of_mem _)
    · split at h
      · exact List.mem_cons.1 h
      · rcases List.mem_cons.1 h with rfl | h
        · exact .inr List.mem_cons_self
        · exact (ih h).imp_right (List.mem_cons_of_mem _)

theorem setKey_ne_nil (key value : String) (qs : List (String × String)) :
    setKey key value qs ≠ [] := by
  cases qs with
  | nil => simp [setKey]
  | cons p rest =>
    unfold setKey
    split
    · simp
    · split <;> simp

theorem find?_cons (k : String) (q : String × String) (qs : List (String × String)) :
    Table.find? k (q :: qs) = if k = q.1 then some q.2 else Table.find? k qs := by
  obtain ⟨k', v⟩ := q
  rw [Table.find?]
  exact if_congr eq_comm rfl rfl

/-- **Only this key has another value then.** -/
theorem find?_setKey (key value : String) (qs : List (String × String)) (k : String) :
    Table.find? k (setKey key value qs) = if k = key then some value else Table.find? k qs := by
  induction qs with
  | nil => exact find?_cons k (key, value) []
  | cons p rest ih =>
    obtain ⟨k', v⟩ := p
    unfold setKey
    split
    · rename_i hk
      rw [find?_cons, find?_cons, hk]
      by_cases h : k = key
      · rw [if_pos h, if_pos h]
      · rw [if_neg h, if_neg h, if_neg h]
    · rename_i hk
      split
      · exact find?_cons k (key, value) _
      · rw [find?_cons, find?_cons, ih]
        by_cases h : k = k'
        · rw [if_pos h, if_pos h, if_neg (h ▸ hk)]
        · rw [if_neg h, if_neg h]

/-- **Sorted qualifiers stay sorted.** -/
theorem sorted_setKey (h : qs.Pairwise Precedes) : (setKey key value qs).Pairwise Precedes := by
  induction qs with
  | nil => exact List.pairwise_singleton _ _
  | cons p rest ih =>
    obtain ⟨k, v⟩ := p
    obtain ⟨hfirst, hrest⟩ := List.pairwise_cons.1 h
    unfold setKey
    split
    · rename_i hk
      -- the value does not matter for the order
      exact List.pairwise_cons.2 ⟨fun q hq => hk ▸ hfirst q hq, hrest⟩
    · rename_i hk
      split
      · rename_i hle
        have hkey : Precedes (key, value) (k, v) := precedes_of_atOrBefore hle (Ne.symm hk)
        exact List.pairwise_cons.2
          ⟨List.forall_mem_cons.2 ⟨hkey, fun q hq => hkey.trans (hfirst q hq)⟩, h⟩
      · rename_i hle
        refine List.pairwise_cons.2 ⟨fun q hq => ?_, ih hrest⟩
        rcases mem_of_mem_setKey hq with rfl | hq
        · exact ⟨hk, by simpa using hle⟩
        · exact hfirst q hq

namespace AreQualifiers

theorem nil : AreQualifiers [] := ⟨nofun, nofun, List.Pairwise.nil⟩

theorem setKey (h : AreQualifiers qs) (hkey : Purl.isKey key) (hlost : key ≠ lostKey) :
    AreQualifiers (setKey key value qs) where
  isKey q hq := by
    rcases mem_of_mem_setKey hq with rfl | hq
    · exact hkey
    · exact h.isKey q hq
  notLost q hq := by
    rcases mem_of_mem_setKey hq with rfl | hq
    · exact hlost
    · exact h.notLost q hq
  sorted := sorted_setKey h.sorted

theorem foldl (h : AreQualifiers qs) {pairs : List (String × String)}
    (hkey : ∀ p ∈ pairs, Purl.isKey p.1) (hlost : ∀ p ∈ pairs, p.1 ≠ lostKey) :
    AreQualifiers (pairs.foldl (fun acc (k, v) => Purl.setKey k v acc) qs) := by
  induction pairs generalizing qs with
  | nil => exact h
  | cons p pairs ih =>
    rw [List.forall_mem_cons] at hkey hlost
    exact ih (h.setKey hkey.1 hlost.1) hkey.2 hlost.2

/-- Each key has one value. -/
theorem nodup (h : AreQualifiers qs) : (qs.map (·.1)).Nodup :=
  List.pairwise_map.2 (h.sorted.imp fun hp => hp.1)

end AreQualifiers

/-! ## §3. Queries. -/

/-- **A query without bad keys gives qualifiers.** -/
theorem areQualifiers_qualifiersOf {query : Option (List Char)} (hbad : badKey? query = none)
    (h : qualifiersOf query = some qs) : AreQualifiers qs := by
  have hkeys : ∀ p ∈ formPairs (query.getD []), isKey p.1 := by
    rw [badKey?, Option.map_eq_none_iff, List.find?_eq_none] at hbad
    simpa using hbad
  unfold qualifiersOf at h
  split at h
  · contradiction
  · obtain rfl := Option.some.inj h
    refine AreQualifiers.nil.foldl (fun p hp => ?_) fun p hp => ?_
    · exact hkeys p (List.mem_filter.1 hp).1
    · simpa using (List.mem_filter.1 hp).2

end ComponentGraph.Purl
