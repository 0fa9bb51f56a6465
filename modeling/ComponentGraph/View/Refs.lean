/-
  ComponentGraph.View.Refs
  ────────────────────────────────
  **REFERENCES OF A DOCUMENT.**

  Every component that a document writes in full gets a reference of its own:

      1. its package URL, where that is not empty and still free
      2. else its label, `name@version` or the name alone
      3. else the label with the first free number behind it, from `#2` on

  The main statement is that a reference is always new, whatever the labels
  and package URLs are (`choose_not_mem`).
-/
import ComponentGraph.Component

namespace ComponentGraph.Refs

/-! ## §1. Numbered labels. -/

def numbered (label : String) (n : Nat) : Field := .ofText (label ++ "#" ++ n.repr)

private theorem repr_eq_repr_iff {m n : Nat} : m.repr = n.repr ↔ m = n := by
  refine ⟨fun h => ?_, congrArg _⟩
  rw [Nat.repr_eq_ofList_toDigits, Nat.repr_eq_ofList_toDigits, String.ofList_inj] at h
  rw [← Nat.ofDigitChars_ten_toDigits (n := m), ← Nat.ofDigitChars_ten_toDigits (n := n), h]

theorem numbered_inj {label : String} {m n : Nat} :
    numbered label m = numbered label n ↔ m = n := by
  simp only [numbered, Field.ofText, Option.some.injEq, Json.text.injEq,
    String.append_right_inj, repr_eq_repr_iff]

theorem isFilled_numbered (label : String) (n : Nat) :
    (numbered label n).isFilled = true := by
  -- at least the number sign is there
  have h : label ++ "#" ++ n.repr ≠ "" := by
    intro h
    have := congrArg String.toList h
    simp at this
  simp [numbered, Field.ofText, Field.isFilled, Json.isFilled, h]

/-- The first numbered label that is free, from `n` on.  A label that is not
free cannot come again, so it need not be kept in mind. -/
def firstFree (label : String) (used : List Field) (n : Nat) : Field :=
  if h : numbered label n ∈ used then
    have : (used.erase (numbered label n)).length < used.length := by
      have := List.length_pos_of_mem h
      rw [List.length_erase_of_mem h]
      omega
    firstFree label (used.erase (numbered label n)) (n + 1)
  else numbered label n
termination_by used.length

/-- **The search for a free number ends** after as many tries as there are
references in use, at the first number that is free. -/
theorem exists_firstFree (label : String) (used : List Field) (n : Nat) :
    ∃ m, n ≤ m ∧ m ≤ n + used.length ∧ firstFree label used n = numbered label m
      ∧ ∀ k, n ≤ k → k < m → numbered label k ∈ used := by
  fun_induction firstFree label used n with
  | case1 used n h hlt ih =>
    obtain ⟨m, hlow, hhigh, he, hbelow⟩ := ih
    refine ⟨m, by omega, by omega, he, fun k hk hkm => ?_⟩
    rcases Nat.eq_or_lt_of_le hk with rfl | hk
    · exact h
    · exact List.mem_of_mem_erase (hbelow k hk hkm)
  | case2 used n h => exact ⟨n, Nat.le_refl n, by omega, rfl, fun k hk hkn => by omega⟩

theorem firstFree_not_mem (label : String) (used : List Field) (n : Nat) :
    firstFree label used n ∉ used := by
  fun_induction firstFree label used n with
  | case1 used n h hlt ih =>
    obtain ⟨m, hm, -, he, -⟩ := exists_firstFree label (used.erase (numbered label n)) (n + 1)
    -- the label that was put aside has a lower number
    have hne : numbered label m ≠ numbered label n := by
      rw [Ne, numbered_inj]
      omega
    rw [he] at ih ⊢
    exact fun hmem => ih ((List.mem_erase_of_ne hne).2 hmem)
  | case2 used n h => exact h

/-! ## §2. The choice. -/

/-- The label if it is free, else the first free numbered label. -/
def fromLabel (label : Field) (used : List Field) : Field :=
  if label ∈ used then firstFree label.inText used 2 else label

/-- The reference of a component with this label and package URL, other
references being in use. -/
def choose (label : Field) (purl : Option String) (used : List Field) : Field :=
  match purl with
  | some url =>
    if url ≠ "" ∧ Field.ofText url ∉ used then .ofText url else fromLabel label used
  | none => fromLabel label used

/-- It is the label, or the label with a number behind it. -/
theorem fromLabel_cases (label : Field) (used : List Field) :
    fromLabel label used = label ∨ ∃ m, fromLabel label used = numbered label.inText m := by
  unfold fromLabel
  split
  · obtain ⟨m, -, -, he, -⟩ := exists_firstFree label.inText used 2
    exact .inr ⟨m, he⟩
  · exact .inl rfl

theorem fromLabel_not_mem (label : Field) (used : List Field) : fromLabel label used ∉ used := by
  unfold fromLabel
  split
  · exact firstFree_not_mem _ _ _
  · assumption

theorem choose_not_mem (label : Field) (purl : Option String) (used : List Field) :
    choose label purl used ∉ used := by
  unfold choose
  split
  · split
    · rename_i h
      exact h.2
    · exact fromLabel_not_mem _ _
  · exact fromLabel_not_mem _ _

/-! ## §3. References that do not show. -/

/-- The fields with nothing in them. -/
def blanks : List Field :=
  [none, some .null, some (.bool false), some (.number .zero), some (.text "")]

theorem mem_blanks {f : Field} (h : f.isFilled = false) : f ∈ blanks := by
  match f with
  | none => simp [blanks]
  | some .null => simp [blanks]
  | some (.bool b) => simp_all [Field.isFilled, Json.isFilled, blanks]
  | some (.number n) => simp_all [Field.isFilled, Json.isFilled, Number.isZero, blanks]
  | some (.text s) => simp_all [Field.isFilled, Json.isFilled, blanks]
  | some (.array _) => simp [Field.isFilled, Json.isFilled] at h
  | some (.object _) => simp [Field.isFilled, Json.isFilled] at h

def freeBlanks (used : List Field) : Nat := (blanks.filter fun f => f ∉ used).length

end ComponentGraph.Refs
