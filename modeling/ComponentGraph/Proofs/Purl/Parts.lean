/-
  ComponentGraph.Proofs.Purl.Parts
  ────────────────────────────────
  **THE PARTS OF A WRITTEN PACKAGE URL.**

  Every part is encoded by itself, and each keeps other characters.  Two facts
  are all that reading needs of a part: it is decoded to what was encoded
  (`decodePart_encodeKeeping`, `formText_encodeKeeping`), and it is a text over
  the unreserved characters, the ones it keeps and the percent sign
  (`isOver_encodeKeeping`).  From the second one follows which separators do
  not occur in it, and that all of it is visible: a URL keeps it as it is.
-/
import ComponentGraph.Purl.Parse
import ComponentGraph.Proofs.Purl.Percent
import Mathlib.Tactic.Common

namespace ComponentGraph.Purl

open ComponentGraph.Text

/-! ## §1. Visible characters. -/

/-- A character of ASCII that is neither a control nor a space. -/
def isVisible (c : Char) : Bool := 0x20 < c.toNat && c.toNat ≤ 0x7E

theorem isVisible_iff {c : Char} : isVisible c ↔ 0x20 < c.toNat ∧ c.toNat ≤ 0x7E := by
  simp [isVisible]

theorem isVisible_of_isAlphanum {c : Char} (h : c.isAlphanum) : isVisible c := by
  have hranges : (decide (65 ≤ c.val ∧ c.val ≤ 90) || 97 ≤ c.val && c.val ≤ 122
      || 48 ≤ c.val && c.val ≤ 57) = true := h
  simp only [Bool.or_eq_true, Bool.and_eq_true, decide_eq_true_eq,
    UInt32.le_iff_toNat_le] at hranges
  change ((65 ≤ c.toNat ∧ c.toNat ≤ 90) ∨ (97 ≤ c.toNat ∧ c.toNat ≤ 122))
    ∨ (48 ≤ c.toNat ∧ c.toNat ≤ 57) at hranges
  rw [isVisible_iff]
  omega

theorem isVisible_of_isUnreserved {c : Char} (h : Percent.isUnreserved c) : isVisible c := by
  have hmarks : "-_.!~*'()".toList.all isVisible := by decide
  rw [Percent.isUnreserved, Bool.or_eq_true] at h
  rcases h with h | h
  · exact isVisible_of_isAlphanum h
  · exact List.all_eq_true.1 hmarks c (List.contains_iff_mem.1 h)

theorem isBlank_of_isVisible {c : Char} (h : isVisible c) : isBlank c = false := by
  rw [isVisible_iff] at h
  simp only [isBlank, blankPoints, List.contains_eq_mem, List.mem_cons, List.not_mem_nil, or_false,
    decide_eq_false_iff_not]
  omega

theorem trim_of_visible {cs : List Char} (h : ∀ c ∈ cs, isVisible c) : trim cs = cs :=
  trimBy_eq_self fun c hc => isBlank_of_isVisible (h c hc)

/-- A URL reads visible text as it is. -/
theorem clean_of_visible {cs : List Char} (h : ∀ c ∈ cs, isVisible c) : Url.clean cs = cs := by
  have hedge : ∀ c ∈ cs, decide (c.toNat ≤ 0x20) = false := by
    intro c hc
    have hv := isVisible_iff.1 (h c hc)
    simpa using hv.1
  rw [Url.clean, trimBy_eq_self hedge, List.filter_eq_self]
  intro c hc
  have hv := isVisible_iff.1 (h c hc)
  have hne : c ≠ '\t' ∧ c ≠ '\n' ∧ c ≠ '\r' := by
    refine ⟨?_, ?_, ?_⟩ <;> (rintro rfl; revert hv; decide)
  simp [hne]

/-- A flat path keeps visible text as it is. -/
theorem encode_staysFlat {cs : List Char} (h : ∀ c ∈ cs, isVisible c) :
    Percent.encode Url.staysFlat cs = cs := by
  apply Percent.encode_eq_self
  intro c hc
  have hv := isVisible_iff.1 (h c hc)
  simp only [Url.staysFlat, Bool.and_eq_true, decide_eq_true_eq]
  omega

/-! ## §2. Encoded parts. -/

/-- Is this a text of unreserved characters and these? -/
def IsOver (marks cs : List Char) : Prop := ∀ c ∈ cs, Percent.keeping marks c

namespace IsOver

variable {marks : List Char}

theorem nil : IsOver marks [] := fun _ hc => absurd hc List.not_mem_nil

theorem append {a b : List Char} (ha : IsOver marks a) (hb : IsOver marks b) :
    IsOver marks (a ++ b) := fun c hc => (List.mem_append.1 hc).elim (ha c) (hb c)

theorem cons {x : Char} {cs : List Char} (hx : Percent.keeping marks x) (h : IsOver marks cs) :
    IsOver marks (x :: cs) := List.forall_mem_cons.2 ⟨hx, h⟩

theorem behind {x : Char} {o : Option (List Char)} (hx : Percent.keeping marks x)
    (h : ∀ cs, o = some cs → IsOver marks cs) : IsOver marks (behind x o) := by
  cases o with
  | none => exact nil
  | some cs => exact cons hx (h cs rfl)

theorem join {x : Char} {pieces : List (List Char)} (hx : Percent.keeping marks x)
    (h : ∀ piece ∈ pieces, IsOver marks piece) : IsOver marks (join x pieces) := by
  induction pieces with
  | nil => exact nil
  | cons piece more ih =>
    rw [List.forall_mem_cons] at h
    cases more with
    | nil => exact h.1
    | cons next more => exact h.1.append (cons hx (ih h.2))

theorem mono {more cs : List Char} (h : IsOver marks cs) (hsub : marks ⊆ more) :
    IsOver more cs := by
  intro c hc
  have hkeep := h c hc
  simp only [Percent.keeping, List.contains_eq_mem, Bool.or_eq_true, decide_eq_true_eq] at hkeep ⊢
  exact hkeep.imp_right fun hm => hsub hm

theorem not_mem {x : Char} {cs : List Char} (h : IsOver marks cs)
    (hx : Percent.keeping marks x = false) : x ∉ cs := by
  intro hmem
  rw [h x hmem] at hx
  contradiction

/-- Unreserved characters are visible. -/
theorem visible {cs : List Char} (h : IsOver marks cs) (hmarks : marks.all isVisible) :
    ∀ c ∈ cs, isVisible c := by
  intro c hc
  have hkeep := h c hc
  rw [Percent.keeping, Bool.or_eq_true, List.contains_iff_mem] at hkeep
  exact hkeep.elim isVisible_of_isUnreserved (List.all_eq_true.1 hmarks c)

end IsOver

variable {more : List Char}

/-- **An encoded part is a text over what it keeps, and the percent sign.** -/
theorem isOver_encodeKeeping (more : List Char) (s : String) :
    IsOver ('%' :: more) (encodeKeeping more s) := by
  intro c hc
  simp only [Percent.keeping, Percent.isUnreserved, List.contains_eq_mem, List.mem_cons,
    Bool.or_eq_true, decide_eq_true_eq]
  rcases Percent.of_mem_encode hc with ⟨-, hkeep⟩ | rfl | halpha
  · simp only [Percent.keeping, Percent.isUnreserved, List.contains_eq_mem, Bool.or_eq_true,
      decide_eq_true_eq] at hkeep
    exact hkeep.imp_right .inr
  · exact .inr (.inl rfl)
  · exact .inl (.inl halpha)

theorem isOver_encode {marks : List Char} (s : String) (hsub : '%' :: more ⊆ marks) :
    IsOver marks (encodeKeeping more s) := (isOver_encodeKeeping more s).mono hsub

theorem encodeKeeping_ne_nil {s : String} (h : s ≠ "") : encodeKeeping more s ≠ [] := by
  apply Percent.encode_ne_nil
  simpa using h

/-- An encoded part that is not empty begins with no separator. -/
theorem exists_encodeKeeping_cons {s : String} (h : s ≠ "") {x : Char}
    (hx : Percent.keeping ('%' :: more) x = false) :
    ∃ y rest, encodeKeeping more s = y :: rest ∧ y ≠ x := by
  have hne : encodeKeeping more s ≠ [] := encodeKeeping_ne_nil h
  obtain ⟨y, rest, hy⟩ := List.exists_cons_of_ne_nil hne
  refine ⟨y, rest, hy, ?_⟩
  rintro rfl
  exact (isOver_encodeKeeping more s).not_mem hx (hy ▸ List.mem_cons_self)

theorem keeping_percent (hmore : '%' ∉ more) : Percent.keeping more '%' = false := by
  have hmark : Percent.isUnreserved '%' = false := by decide
  simp [Percent.keeping, hmark, hmore]

theorem decodePart_encode (hmore : '%' ∉ more) (cs : List Char) :
    decodePart (Percent.encode (Percent.keeping more) cs) = .ok (String.ofList cs) := by
  rw [decodePart, Percent.decode?_encode (keeping_percent hmore)]

/-- **An encoded part is decoded to what was encoded.** -/
theorem decodePart_encodeKeeping (hmore : '%' ∉ more) (s : String) :
    decodePart (encodeKeeping more s) = .ok s := by
  rw [encodeKeeping, decodePart_encode hmore, String.ofList_toList]

/-- A part of a query has no plus sign that would be taken for a space. -/
theorem formText_encodeKeeping (hmore : '%' ∉ more) (hplus : '+' ∉ more) (s : String) :
    formText (encodeKeeping more s) = s := by
  have hnot : '+' ∉ encodeKeeping more s := by
    refine (isOver_encodeKeeping more s).not_mem ?_
    have hmark : Percent.isUnreserved '+' = false := by decide
    simp [Percent.keeping, hmark, hplus]
  have hmap : (encodeKeeping more s).map (fun c => if c = '+' then ' ' else c)
      = encodeKeeping more s := by
    refine (List.map_congr_left fun c hc => ?_).trans (List.map_id _)
    exact if_neg fun h : c = '+' => hnot (h ▸ hc)
  rw [formText, hmap, encodeKeeping, Percent.decodeLossy_encode (keeping_percent hmore),
    String.ofList_toList]

end ComponentGraph.Purl
