/-
  ComponentGraph.Proofs.Purl.Spelling
  ────────────────────────────────
  **A PACKAGE URL IS SPELLED ONCE.**

  Writing a package URL settles its name.  A settled name is its own
  spelling, so a package URL that is written twice reads the same both times
  (`text?_settled`), and is written the second time if it was the first.
-/
import ComponentGraph.Purl.Basic
import ComponentGraph.Proofs.Text.Lowercase

namespace ComponentGraph.Purl

open Text (IsLow isLow_lowercase lowercase_of_isLow lowercase_lowercase)

/-! ## §1. Spelling. -/

/-- The dash for the underscore, as one ecosystem has it. -/
def dashed (c : Char) : Char := if c = '_' then '-' else c

theorem isLow_dashed {c : Char} (h : IsLow c) : IsLow (dashed c) := by
  unfold dashed
  split
  · exact ⟨by decide +kernel, by decide, by decide⟩
  · exact h

theorem dashed_dashed (c : Char) : dashed (dashed c) = dashed c := by
  unfold dashed
  by_cases h : c = '_'
  · rw [if_pos h, if_neg (by decide)]
  · rw [if_neg h, if_neg h]

/-- A lower-case text with dashes is its own lower case. -/
theorem lowercase_map_dashed (cs : List Char) :
    Text.lowercase ((Text.lowercase cs).map dashed) = (Text.lowercase cs).map dashed := by
  apply lowercase_of_isLow
  intro x hx
  obtain ⟨c, hc, rfl⟩ := List.mem_map.1 hx
  exact isLow_dashed (isLow_lowercase cs c hc)

/-- **A spelled name is its own spelling.** -/
theorem spelledName_spelledName (type name : String) :
    spelledName type (spelledName type name) = spelledName type name := by
  unfold spelledName
  by_cases hpypi : type = "pypi"
  · -- lower case and dashes do not disturb each other
    simp only [hpypi, if_true, String.toList_ofList]
    show String.ofList ((Text.lowercase ((Text.lowercase name.toList).map dashed)).map dashed) = _
    rw [lowercase_map_dashed, List.map_map]
    congr 1
    apply List.map_congr_left
    intro c _
    exact dashed_dashed c
  · simp only [hpypi, if_false]
    by_cases hpub : type = "pub"
    · simp only [hpub, if_true, String.toList_ofList, lowercase_lowercase]
    · simp only [hpub, if_false]

@[simp] theorem settled_settled (p : Purl) : p.settled.settled = p.settled := by
  simp only [settled, spelledName_spelledName]

/-! ## §2. The written form. -/

/-- May the package URL be written? -/
def isWritable (p : Purl) : Bool := allowsName p.type p.settled.name

@[simp] theorem isWritable_settled (p : Purl) : p.settled.isWritable = p.isWritable := by
  rw [isWritable, settled_settled]
  rfl

theorem text?_of_isWritable {p : Purl} (h : p.isWritable) :
    p.text? = .ok (String.ofList p.settled.chars) := if_pos h

theorem text?_of_not_isWritable {p : Purl} (h : ¬ p.isWritable) : p.text? = .error .badName :=
  if_neg h

theorem isWritable_iff {p : Purl} : p.isWritable ↔ ∃ s, p.text? = .ok s := by
  constructor
  · intro h
    exact ⟨_, text?_of_isWritable h⟩
  · rintro ⟨s, hs⟩
    cases h : p.isWritable with
    | true => rfl
    | false =>
      rw [text?_of_not_isWritable (by simp [h])] at hs
      contradiction

/-- **Written twice, a package URL reads the same.** -/
@[simp] theorem text?_settled (p : Purl) : p.settled.text? = p.text? := by
  rw [text?, text?, settled_settled]
  rfl

theorem chars_ne_nil (p : Purl) : p.chars ≠ [] := by
  intro h
  -- the scheme is there, whatever follows
  unfold chars at h
  simp only [List.append_eq_nil_iff] at h
  simp at h

/-- A written package URL is not empty: it begins with its scheme. -/
theorem text?_ne_empty {p : Purl} {s : String} (h : p.text? = .ok s) : s ≠ "" := by
  have hw : p.isWritable := isWritable_iff.2 ⟨s, h⟩
  rw [text?_of_isWritable hw] at h
  have hs : String.ofList p.settled.chars = s := Except.ok.inj h
  intro he
  rw [he] at hs
  have hc := congrArg String.toList hs
  rw [String.toList_ofList] at hc
  exact chars_ne_nil _ hc

end ComponentGraph.Purl
